import MdImporter.Fragment
import MdImporter.Inline
import MdImporter.NotionTable

/-!
# The block walker

`process_mdast_node`, `process_mdast_node_children` and `process_table_row`
recurse into each other, and through the re-parse of a `<details>` body they
leave the tree they started on; the model gives every function of the
recursion a fuel argument that each call consumes, and `Fault.outOfFuel` is
the result when it runs out. The two inner `while` loops of the sibling loop,
which consume the siblings of an open callout or toggle, are the `Pending`
states of one loop over the siblings.

The importer's parse options are the same in every call, so the walker takes
the parser already applied to them, `toMdast`. `generate_id` draws from an
id supply `ids`; `ImportState.issued` counts the ids drawn.
-/

namespace MdImporter

set_option autoImplicit false

open RustStr

/-- `DocumentError`, of which the importer raises one variant. -/
inductive DocumentError where
  | parseMarkdownError
  deriving DecidableEq, Repr

/-- The importer's state: the document under construction and how many ids
`generate_id` has handed out. -/
structure ImportState where
  document : DocumentData
  issued : Nat

namespace ImportState

/-- Apply a document operation. -/
def edit (s : ImportState) (f : DocumentData → DocumentData) : ImportState :=
  { s with document := f s.document }

@[simp] theorem edit_document (s : ImportState) (f : DocumentData → DocumentData) :
    (s.edit f).document = f s.document := rfl

@[simp] theorem edit_issued (s : ImportState) (f : DocumentData → DocumentData) :
    (s.edit f).issued = s.issued := rfl

end ImportState

/-- `generate_id`: the next id of the supply. -/
def generateId (ids : Nat → String) (s : ImportState) : String × ImportState :=
  (ids s.issued, { s with issued := s.issued + 1 })

/-- `block_id.unwrap_or_else(generate_id)`. -/
def idOrGenerate (ids : Nat → String) (blockId : Option String) (s : ImportState) :
    String × ImportState :=
  match blockId with
  | some id => (id, s)
  | none => generateId ids s

/-- The three calls every block-emitting path of the importer makes but the
callout and toggle paths: insert the block, `ensure_children_map_entry`, and
`update_children_map` under its parent. -/
def DocumentData.registerBlock (d : DocumentData) (id : String) (block : Block)
    (parentId : Option String) : DocumentData :=
  ((d.insertBlock id block).ensureChildrenMapEntry id).updateChildrenMap parentId id

/-- `process_image`: an image block under `parentId`. -/
def processImage (ids : Nat → String) (s : ImportState) (url parentId : String) :
    ImportState :=
  let (newBlockId, s) := generateId ids s
  s.edit (·.registerBlock newBlockId (createImageBlock newBlockId url parentId)
    (some parentId))

/-- `create_paragraph_block`: an empty paragraph under `parentId`, and its id. -/
def createParagraphBlock (ids : Nat → String) (s : ImportState) (parentId : String) :
    String × ImportState :=
  let (paragraphBlockId, s) := generateId ids s
  (paragraphBlockId, s.edit (·.registerBlock paragraphBlockId
    (createBlock paragraphBlockId (.paragraph []) (some parentId) none none) (some parentId)))

/-- A text-bearing container block of the given type with empty data. -/
def containerBlock (ty : BlockType) (id : String) (data : BlockData) (parent : String) :
    Block where
  id := id
  ty := ty.toString
  data := data
  parent := parent
  children := id
  externalId := some id
  externalType := some "text"

/-- The callout block of an `<aside>` fragment, with its icon when it has one. -/
def calloutBlock (calloutId icon : String) (parentId : Option String) : Block :=
  containerBlock .callout calloutId
    (if icon.isEmpty then HashMap.empty else HashMap.empty.insert "icon" (.string icon))
    (parentId.getD "")

/-- `Vec` indexing, which panics past the end. -/
def index {α : Type} (xs : List α) (i : Nat) : Except Fault α :=
  match xs[i]? with
  | some x => .ok x
  | none => .error (.panic "index out of bounds")

/-- The url of the image a node is flattened to: a paragraph whose only child
is an image, or an image. `para.children[0]` is read only after the length
test, as in the source. -/
def imageOf (node : Node) : Except Fault (Option String) :=
  match node with
  | .paragraph children =>
      if children.length == 1 then do
        match ← index children 0 with
        | .image url => pure (some url)
        | _ => pure none
      else pure none
  | .image url => pure (some url)
  | _ => pure none

/-- The panic of the `unreachable!` Image arm. -/
def imageUnreachable : Fault :=
  .panic "internal error: entered unreachable code: Image nodes should be handled earlier"

/-- The closing sentinels `</aside>` and `</details>`. -/
def isClosingTag (value : String) : Bool :=
  value == "</aside>" || value == "</details>"

/-- An `Html` node whose trimmed value is `tag`. -/
def isHtmlTag (tag : String) : Node → Bool
  | .html value => trim value == tag
  | _ => false

/-- The closing-sentinel test of `process_mdast_node`. -/
def isClosingSentinel : Node → Bool
  | .html value => isClosingTag (trim value)
  | _ => false

/-- The columns layout of a table that `parse_notion_columns_table` accepts. -/
def notionColumnsOf : Node → Option NotionColumnsTableInfo
  | .table _ rows => parseNotionColumnsTable rows
  | _ => none

/-- What the Table arm takes from one of the table's children: a `TableRow`'s
cells. -/
def tableRowOf : Node → Option (List Node)
  | .tableRow cells => some cells
  | _ => none

/-- What the loop of `process_table_row` takes from one of the row's children:
a `TableCell`'s children. -/
def tableCellOf : Node → Option (List Node)
  | .tableCell children => some children
  | _ => none

/-- How the outer sibling loop treats a node. -/
inductive Sibling where
  | closing
  | aside (callout : ParsedAside)
  | details (value : String)
  | other

/-- The tests at the top of the sibling loop, in the source's order. -/
def classifySibling : Node → Sibling
  | .html value =>
      let value := trim value
      if isClosingTag value then .closing
      else match parseAsideHtml value with
        | some callout => .aside callout
        | none => if startsWith value "<details>" then .details value else .other
  | _ => .other

/-- How the inner loop of an open toggle treats a node. -/
inductive ToggleSibling where
  | close
  | summary (value : String)
  | other

/-- The tests of the toggle's inner loop: `</details>` closes it, and a
`<summary>` sibling is consumed while no summary has been written. -/
def classifyToggleSibling (summaryWritten : Bool) : Node → ToggleSibling
  | .html value =>
      let v := trim value
      if v == "</details>" then .close
      else if !summaryWritten && startsWith v "<summary>" then .summary v
      else .other
  | _ => .other

/-- Where the sibling loop stands: at its top, or inside the inner loop of
the callout or toggle opened last, with the toggle's `summary_written`. -/
inductive Pending where
  | none
  | callout (calloutId : String)
  | toggle (toggleId : String) (summaryWritten : Bool)

section Walk

variable (toMdast : String → Option (List Node)) (ids : Nat → String)

mutual

/-- `process_mdast_node`: inline nodes, closing sentinels, lists, image
promotion and the columns rewrite; any other node gets a block of its own,
whose content `processBlockContent` walks. -/
def processMdastNode : Nat → ImportState → Node → Option String → Option String →
    Option Node.ListType → Option Nat → Except Fault ImportState
  | 0, _, _, _, _, _, _ => .error .outOfFuel
  | fuel + 1, s, node, parentId, blockId, listType, startNumber =>
    if node.isInlineNode then .ok (s.edit (·.processInlineMdastNode node parentId))
    else if isClosingSentinel node then .ok s
    else match node.getMdastNodeInfo with
    | some (children, listType, startNumber) =>
        processMdastNodeChildren fuel s parentId .none children (some listType) startNumber
    | none => do
      match ← imageOf node, parentId with
      | some url, some parent => .ok (processImage ids s url parent)
      | _, _ =>
      match notionColumnsOf node with
      | some info =>
          let (id, s) := idOrGenerate ids blockId s
          let s := s.edit (·.registerBlock id
            (containerBlock .simpleColumns id HashMap.empty (parentId.getD "")) parentId)
          processNotionColumns fuel s id info.bodyRows (List.range info.colCount)
      | none =>
          let (id, s) := idOrGenerate ids blockId s
          let s := s.edit (·.registerBlock id
            (createBlock id node parentId listType startNumber) parentId)
          processBlockContent fuel s node id listType startNumber
termination_by structural fuel => fuel

/-- The `match node` that ends `process_mdast_node`: the content of the block
`id` just made for `node`. A blockquote or list item takes its first
paragraph's inline content as its own text and walks the rest as children. -/
def processBlockContent : Nat → ImportState → Node → String → Option Node.ListType →
    Option Nat → Except Fault ImportState
  | 0, _, _, _, _, _ => .error .outOfFuel
  | fuel + 1, s, node, id, listType, startNumber =>
    match node with
    | .root children | .paragraph children | .heading _ children =>
        processMdastNodeChildren fuel s (some id) .none children none startNumber
    | .blockquote children | .listItem _ children =>
        match children with
        | [] => .ok s
        | first :: rest => do
            let s ← match first with
              | .paragraph para =>
                  processMdastNodeChildren fuel s (some id) .none para none startNumber
              | _ => .ok s
            processMdastNodeChildren fuel s (some id) .none rest listType startNumber
    | .code value _ => .ok (s.edit (·.insertDeltaToTextMap id [⟨value, []⟩]))
    | .table align rows => processTableRows fuel s id align 0 rows
    | .image _ => .error imageUnreachable
    | _ => .ok (s.edit (·.insertDeltaToTextMap id [⟨node.toString, []⟩]))
termination_by structural fuel => fuel

/-- `process_mdast_node_children`: the loop over a sibling slice, with the
inner loops of an open callout or toggle as `Pending` states. -/
def processMdastNodeChildren : Nat → ImportState → Option String → Pending → List Node →
    Option Node.ListType → Option Nat → Except Fault ImportState
  | 0, _, _, _, _, _, _ => .error .outOfFuel
  | _ + 1, s, _, _, [], _, _ => .ok s
  | fuel + 1, s, parentId, .none, node :: rest, listType, startNumber =>
      match classifySibling node with
      | .closing => processMdastNodeChildren fuel s parentId .none rest listType startNumber
      | .aside callout =>
          let (calloutId, s) := generateId ids s
          let s := s.edit fun d => (d.insertBlock calloutId
            (calloutBlock calloutId callout.icon parentId)).updateChildrenMap parentId calloutId
          let s := s.edit (·.insertMarkdownAsInlineDelta toMdast calloutId callout.content)
          processMdastNodeChildren fuel s parentId (.callout calloutId) rest listType startNumber
      | .details value => do
          let (toggleId, s) := generateId ids s
          let s := s.edit fun d => (d.insertBlock toggleId
            (containerBlock .toggleList toggleId HashMap.empty (parentId.getD ""))).updateChildrenMap
              parentId toggleId
          let (s, summaryWritten) ← match ← parseDetailsHtml value with
            | some details => do
                let s := s.edit (·.insertMarkdownAsInlineDelta toMdast toggleId details.summary)
                let s ← processToggleBody fuel s toggleId details.body
                pure (s, true)
            | none => pure (s, false)
          processMdastNodeChildren fuel s parentId (.toggle toggleId summaryWritten) rest listType
            startNumber
      | .other => do
          let s ← processMdastNode fuel s node parentId none listType startNumber
          processMdastNodeChildren fuel s parentId .none rest listType startNumber
  | fuel + 1, s, parentId, .callout calloutId, node :: rest, listType, startNumber =>
      if isHtmlTag "</aside>" node then
        processMdastNodeChildren fuel s parentId .none rest listType startNumber
      else do
        let s ← processMdastNode fuel s node (some calloutId) none listType startNumber
        processMdastNodeChildren fuel s parentId (.callout calloutId) rest listType startNumber
  | fuel + 1, s, parentId, .toggle toggleId summaryWritten, node :: rest, listType,
      startNumber =>
      match classifyToggleSibling summaryWritten node with
      | .close => processMdastNodeChildren fuel s parentId .none rest listType startNumber
      | .summary value => do
          match ← extractTagContent value "summary" with
          | some (summary, after) =>
              let s := s.edit (·.insertMarkdownAsInlineDelta toMdast toggleId summary)
              let s ← processToggleBody fuel s toggleId (trim after)
              processMdastNodeChildren fuel s parentId (.toggle toggleId true) rest listType
                startNumber
          | none =>
              processMdastNodeChildren fuel s parentId (.toggle toggleId summaryWritten) rest
                listType startNumber
      | .other => do
          let s ← processMdastNode fuel s node (some toggleId) none listType startNumber
          processMdastNodeChildren fuel s parentId (.toggle toggleId summaryWritten) rest
            listType startNumber

termination_by structural fuel => fuel

/-- The re-parse of a toggle's body: `if !body.trim().is_empty()`, parse it and
walk the root's children under the toggle; a failed parse is skipped. -/
def processToggleBody : Nat → ImportState → String → String → Except Fault ImportState
  | 0, _, _, _ => .error .outOfFuel
  | fuel + 1, s, toggleId, body =>
      if (trim body).isEmpty then .ok s
      else match toMdast body with
        | some children => processMdastNodeChildren fuel s (some toggleId) .none children none none
        | none => .ok s

termination_by structural fuel => fuel

/-- The Table arm's loop over `table.children.iter().enumerate()`. -/
def processTableRows : Nat → ImportState → String → List AlignKind → Nat → List Node →
    Except Fault ImportState
  | 0, _, _, _, _, _ => .error .outOfFuel
  | _ + 1, s, _, _, _, [] => .ok s
  | fuel + 1, s, tableId, align, rowIndex, row :: rows => do
      let s ← match row with
        | .tableRow cells => processTableRow fuel s cells rowIndex tableId align
        | _ => .ok s
      processTableRows fuel s tableId align (rowIndex + 1) rows

termination_by structural fuel => fuel

/-- `process_table_row`. -/
def processTableRow : Nat → ImportState → List Node → Nat → String → List AlignKind →
    Except Fault ImportState
  | 0, _, _, _, _, _ => .error .outOfFuel
  | fuel + 1, s, cells, rowIndex, tableId, align =>
      let (rowId, s) := generateId ids s
      let s := s.edit (·.registerBlock rowId (createSimpleTableRowBlock rowId tableId)
        (some tableId))
      processTableCells fuel s cells rowId rowIndex 0 align

termination_by structural fuel => fuel

/-- The loop of `process_table_row` over the row's cells: each cell gets a cell
block holding a paragraph that its children are walked into. -/
def processTableCells : Nat → ImportState → List Node → String → Nat → Nat →
    List AlignKind → Except Fault ImportState
  | 0, _, _, _, _, _, _ => .error .outOfFuel
  | _ + 1, s, [], _, _, _, _ => .ok s
  | fuel + 1, s, cell :: cells, rowId, rowIndex, colIndex, align => do
      let s ← match cell with
        | .tableCell children =>
            let (cellId, s) := generateId ids s
            let s := s.edit (·.registerBlock cellId
              (createSimpleTableCellBlock cellId rowId rowIndex colIndex align) (some rowId))
            let (paragraphBlockId, s) := createParagraphBlock ids s cellId
            processMdastNodeChildren fuel s (some paragraphBlockId) .none children none none
        | _ => .ok s
      processTableCells fuel s cells rowId rowIndex (colIndex + 1) align

termination_by structural fuel => fuel

/-- The columns rewrite's loop over `0..col_count`. -/
def processNotionColumns : Nat → ImportState → String → List Node → List Nat →
    Except Fault ImportState
  | 0, _, _, _, _ => .error .outOfFuel
  | _ + 1, s, _, _, [] => .ok s
  | fuel + 1, s, columnsId, bodyRows, colIndex :: colIndices => do
      let (columnId, s) := generateId ids s
      let s := s.edit (·.registerBlock columnId
        (containerBlock .simpleColumn columnId HashMap.empty columnsId) (some columnsId))
      let s ← processNotionColumnRows fuel s columnId colIndex bodyRows
      processNotionColumns fuel s columnsId bodyRows colIndices

termination_by structural fuel => fuel

/-- The columns rewrite's loop over the body rows for one column: a
non-empty cell becomes a paragraph of that column. -/
def processNotionColumnRows : Nat → ImportState → String → Nat → List Node →
    Except Fault ImportState
  | 0, _, _, _, _ => .error .outOfFuel
  | _ + 1, s, _, _, [] => .ok s
  | fuel + 1, s, columnId, colIndex, row :: rows => do
      let s ← match row with
        | .tableRow cells =>
            match cells[colIndex]? with
            | some (.tableCell children) =>
                if isTableCellEmpty children then .ok s
                else
                  let (paragraphBlockId, s) := createParagraphBlock ids s columnId
                  processMdastNodeChildren fuel s (some paragraphBlockId) .none children none none
            | _ => .ok s
        | _ => .ok s
      processNotionColumnRows fuel s columnId colIndex rows

termination_by structural fuel => fuel
end

end Walk

/-- `MDImporter`: the parser under the importer's `parse_options`. The
crate's `to_mdast` returns a `Root` on success; the model returns its
children. -/
structure MDImporter where
  toMdast : String → Option (List Node)

/-- The empty snapshot `import` starts from. -/
def DocumentData.initial (documentId : String) : DocumentData where
  pageId := documentId
  blocks := HashMap.empty
  meta := ⟨HashMap.empty, HashMap.empty⟩

/-- `MDImporter::import`: parse, then walk the root with no parent and the
document id as its block id. The outer `Except` is how the walk ends (a panic,
or the model's fuel running out); the inner one is the method's `Result`. -/
def MDImporter.importMd (importer : MDImporter) (ids : Nat → String) (fuel : Nat)
    (documentId md : String) : Except Fault (Except DocumentError DocumentData) :=
  match importer.toMdast md with
  | none => .ok (.error .parseMarkdownError)
  | some children => do
      let s ← processMdastNode importer.toMdast ids fuel ⟨.initial documentId, 0⟩
        (.root children) none (some documentId) none none
      pure (.ok s.document)

end MdImporter
