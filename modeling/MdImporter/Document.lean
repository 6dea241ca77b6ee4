import MdImporter.HashMap
import MdImporter.Mdast

/-!
# The block document

`DocumentData` is the snapshot the importer builds: blocks by id, the
parent-to-children lists and the deltas of text-bearing blocks. The two
children-map operations and the block constructors of the importer are
translated here; the block factory of the `util` module, the delta type and
the constants of `define.rs`, which are not among the sources, follow the spec.
-/

namespace MdImporter

set_option autoImplicit false

/-- A value of a block's `data` (`serde_json::Value`) as the importer writes it. -/
inductive Value where
  | string (value : String)
  | number (value : Nat)
  | bool (value : Bool)
  deriving DecidableEq, Repr

/-- The type tags of blocks (`BlockType`), written out by `to_string`. -/
inductive BlockType where
  | page | paragraph | heading | bulletedList | numberedList | todoList | quote | code
  | divider | image | simpleColumns | simpleColumn | simpleTable | simpleTableRow
  | simpleTableCell | callout | toggleList | text
  deriving DecidableEq, Repr

/-- Modelled from the spec: the type tag strings of `BlockType::to_string`. -/
def BlockType.toString : BlockType → String
  | .page => "page"
  | .paragraph => "paragraph"
  | .heading => "heading"
  | .bulletedList => "bulleted_list"
  | .numberedList => "numbered_list"
  | .todoList => "todo_list"
  | .quote => "quote"
  | .code => "code"
  | .divider => "divider"
  | .image => "image"
  | .simpleColumns => "simple_columns"
  | .simpleColumn => "simple_column"
  | .simpleTable => "simple_table"
  | .simpleTableRow => "simple_table_row"
  | .simpleTableCell => "simple_table_cell"
  | .callout => "callout"
  | .toggleList => "toggle_list"
  | .text => "text"

/-- A block's attribute bag (`BlockData`). -/
abbrev BlockData := HashMap Value

/-- A block of the document tree. -/
structure Block where
  id : String
  ty : String
  data : BlockData
  parent : String
  children : String
  externalId : Option String
  externalType : Option String
  deriving DecidableEq

/-- Modelled from the spec: a rich-text attribute of a delta segment. -/
inductive Attribute where
  | bold
  | italic
  | strikethrough
  | code
  | mathInline
  | href (url : String)
  deriving DecidableEq, Repr

/-- Modelled from the spec: one insertion operation of a delta. -/
structure TextInsert where
  insert : String
  attributes : List Attribute
  deriving DecidableEq, Repr

/-- Modelled from the spec: a delta, an ordered sequence of insertions. -/
abbrev Delta := List TextInsert

/-- The adjacency and text maps of a snapshot. -/
structure DocumentMeta where
  childrenMap : HashMap (List String)
  textMap : HashMap Delta
  deriving DecidableEq

/-- A document snapshot. -/
structure DocumentData where
  pageId : String
  blocks : HashMap Block
  meta : DocumentMeta
  deriving DecidableEq

namespace DocumentData

/-- `document_data.blocks.insert(id, block)`. -/
def insertBlock (d : DocumentData) (id : String) (block : Block) : DocumentData :=
  { d with blocks := d.blocks.insert id block }

/-- `update_children_map`: append `childId` to the parent's list, creating it. -/
def updateChildrenMap (d : DocumentData) (parentId : Option String) (childId : String) :
    DocumentData :=
  match parentId with
  | some parent =>
      { d with meta := { d.meta with
          childrenMap := d.meta.childrenMap.upsert parent [] (· ++ [childId]) } }
  | none => d

/-- `ensure_children_map_entry`: make sure the block has a (possibly empty) list. -/
def ensureChildrenMapEntry (d : DocumentData) (blockId : String) : DocumentData :=
  { d with meta := { d.meta with childrenMap := d.meta.childrenMap.upsert blockId [] id } }

/-- Modelled from the spec: `util::insert_delta_to_text_map` appends the segments
of `delta` to the block's delta, creating it. -/
def insertDeltaToTextMap (d : DocumentData) (blockId : String) (delta : Delta) :
    DocumentData :=
  { d with meta := { d.meta with
      textMap := d.meta.textMap.upsert blockId [] (· ++ delta) } }

@[simp] theorem insertBlock_pageId (d : DocumentData) (id : String) (block : Block) :
    (d.insertBlock id block).pageId = d.pageId := rfl

@[simp] theorem insertBlock_meta (d : DocumentData) (id : String) (block : Block) :
    (d.insertBlock id block).meta = d.meta := rfl

@[simp] theorem updateChildrenMap_pageId (d : DocumentData) (parentId : Option String)
    (childId : String) : (d.updateChildrenMap parentId childId).pageId = d.pageId := by
  cases parentId <;> rfl

@[simp] theorem updateChildrenMap_blocks (d : DocumentData) (parentId : Option String)
    (childId : String) : (d.updateChildrenMap parentId childId).blocks = d.blocks := by
  cases parentId <;> rfl

@[simp] theorem updateChildrenMap_textMap (d : DocumentData) (parentId : Option String)
    (childId : String) :
    (d.updateChildrenMap parentId childId).meta.textMap = d.meta.textMap := by
  cases parentId <;> rfl

@[simp] theorem ensureChildrenMapEntry_pageId (d : DocumentData) (blockId : String) :
    (d.ensureChildrenMapEntry blockId).pageId = d.pageId := rfl

@[simp] theorem ensureChildrenMapEntry_blocks (d : DocumentData) (blockId : String) :
    (d.ensureChildrenMapEntry blockId).blocks = d.blocks := rfl

@[simp] theorem ensureChildrenMapEntry_textMap (d : DocumentData) (blockId : String) :
    (d.ensureChildrenMapEntry blockId).meta.textMap = d.meta.textMap := rfl

@[simp] theorem insertDeltaToTextMap_pageId (d : DocumentData) (blockId : String)
    (delta : Delta) : (d.insertDeltaToTextMap blockId delta).pageId = d.pageId := rfl

@[simp] theorem insertDeltaToTextMap_blocks (d : DocumentData) (blockId : String)
    (delta : Delta) : (d.insertDeltaToTextMap blockId delta).blocks = d.blocks := rfl

@[simp] theorem insertDeltaToTextMap_childrenMap (d : DocumentData) (blockId : String)
    (delta : Delta) :
    (d.insertDeltaToTextMap blockId delta).meta.childrenMap = d.meta.childrenMap := rfl

end DocumentData

/-- Modelled from the spec: the data keys and values of `define.rs`. -/
def urlField : String := "url"
/-- Modelled from the spec: `IMAGE_TYPE_FIELD`. -/
def imageTypeField : String := "image_type"
/-- Modelled from the spec: `EXTERNAL_IMAGE_TYPE`. -/
def externalImageType : String := "external"
/-- Modelled from the spec: `ROW_POSITION_FIELD`. -/
def rowPositionField : String := "row"
/-- Modelled from the spec: `COL_POSITION_FIELD`. -/
def colPositionField : String := "col"
/-- Modelled from the spec: `ALIGN_FIELD`. -/
def alignField : String := "align"

/-- Modelled from the spec: `util::mdast_node_type_to_block_type`, the block
factory's type tag. -/
def mdastNodeTypeToBlockType (node : Node) (listType : Option Node.ListType) : String :=
  BlockType.toString <| match node with
  | .root _ => .page
  | .paragraph _ => .paragraph
  | .heading _ _ => .heading
  | .blockquote _ => .quote
  | .listItem _ _ =>
      match listType with
      | some .numbered => .numberedList
      | some .todo => .todoList
      | _ => .bulletedList
  | .code _ _ => .code
  | .thematicBreak => .divider
  | .table _ _ => .simpleTable
  | .image _ => .image
  | _ => .text

/-- Modelled from the spec: `util::mdast_node_to_block_data`: a heading's level,
a numbered item's start, a to-do item's checkbox and a code block's language. -/
def mdastNodeToBlockData (node : Node) (listType : Option Node.ListType)
    (startNumber : Option Nat) : BlockData :=
  match node, listType with
  | .heading depth _, _ => HashMap.empty.insert "level" (.number depth)
  | .listItem _ _, some .numbered => HashMap.empty.insert "start" (.number (startNumber.getD 1))
  | .listItem checked _, some .todo =>
      HashMap.empty.insert "checked" (.bool (checked.getD false))
  | .code _ lang, _ => HashMap.empty.insert "language" (.string (lang.getD ""))
  | _, _ => HashMap.empty

/-- `create_block`: a text-bearing block for `node`. -/
def createBlock (id : String) (node : Node) (parentId : Option String)
    (listType : Option Node.ListType) (startNumber : Option Nat) : Block where
  id := id
  ty := mdastNodeTypeToBlockType node listType
  data := mdastNodeToBlockData node listType startNumber
  parent := parentId.getD ""
  children := id
  externalId := some id
  externalType := some "text"

/-- `create_image_block`. -/
def createImageBlock (blockId url parentId : String) : Block where
  id := blockId
  ty := BlockType.image.toString
  data := (HashMap.empty.insert urlField (.string url)).insert imageTypeField
    (.string externalImageType)
  parent := parentId
  children := ""
  externalId := none
  externalType := none

/-- `create_simple_table_row_block`. -/
def createSimpleTableRowBlock (id parentId : String) : Block where
  id := id
  ty := BlockType.simpleTableRow.toString
  data := HashMap.empty
  parent := parentId
  children := id
  externalId := none
  externalType := none

/-- The alignment string of a column (`ALIGN_LEFT`, `ALIGN_RIGHT`,
`ALIGN_CENTER`, modelled from the spec). -/
def alignString : AlignKind → String
  | .left => "left"
  | .right => "right"
  | .center => "center"
  | .none => "left"

/-- `create_simple_table_cell_block`: the cell's position, and its column's
alignment when the table has an entry for that column. -/
def createSimpleTableCellBlock (id parentId : String) (row col : Nat)
    (alignments : List AlignKind) : Block where
  id := id
  ty := BlockType.simpleTableCell.toString
  data :=
    let cellData := (HashMap.empty.insert rowPositionField (.number row)).insert
      colPositionField (.number col)
    match alignments[col]? with
    | some align => cellData.insert alignField (.string (alignString align))
    | none => cellData
  parent := parentId
  children := id
  externalId := none
  externalType := none

theorem createSimpleTableCellBlock_data (id parentId : String) (row col : Nat)
    (alignments : List AlignKind) (key : String) :
    (createSimpleTableCellBlock id parentId row col alignments).data.get? key =
      if key = alignField then alignments[col]?.map (.string ∘ alignString)
      else if key = colPositionField then some (.number col)
      else if key = rowPositionField then some (.number row)
      else none := by
  simp only [createSimpleTableCellBlock, alignField, colPositionField, rowPositionField]
  cases alignments[col]? <;> by_cases align : key = "align" <;> simp [align]

end MdImporter
