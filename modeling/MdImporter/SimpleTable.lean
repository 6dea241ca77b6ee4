import MdImporter.Tables

/-!
# Tables in the document

A table that `parse_notion_columns_table` rejects keeps its block: the
walker makes a `simple_table` block under the parent and, in
`process_table_row`, one row block per `TableRow` child and one cell block
per `TableCell` of the row, each with one paragraph that the cell's children
are walked into. Rows and cells are numbered by `enumerate`, over all the
children of the table and of the row.

Each row and cell is laid out when the loop reaches it; the frame of the rest
of the loop, which changes no block but the table or the row, carries the
layout to the end of the walk. A cell records an alignment only for a column
the table's alignment list has an entry for (`processMdastNode_table_alignMissing`).
-/

namespace MdImporter

set_option autoImplicit false

/-- The children an `enumerate` loop acts on, with the index it gives each
among all the children, counted from `index`, and what `select` takes from it. -/
def enumerated (select : Node → Option (List Node)) :
    Nat → List Node → List (Nat × List Node)
  | _, [] => []
  | index, node :: nodes =>
      match select node with
      | some taken => (index, taken) :: enumerated select (index + 1) nodes
      | none => enumerated select (index + 1) nodes

example : enumerated tableCellOf 0 [.tableCell [], .text "x", .tableCell [.text "c"]] =
    [(0, []), (2, [.text "c"])] := rfl

section Layout

variable (toMdast : String → Option (List Node)) (ids : Nat → String)

/-- The cell block `cellId` of row `rowId` in `d`, for the cell of column
`cell.1`: the block `create_simple_table_cell_block` makes for it, whose list
is one paragraph holding the walk of the cell's children `cell.2`. -/
def CellLayout (d : DocumentData) (rowId : String) (rowIndex : Nat) (align : List AlignKind)
    (cellId : String) (cell : Nat × List Node) : Prop :=
  d.blocks.get? cellId = some (createSimpleTableCellBlock cellId rowId rowIndex cell.1 align) ∧
    ∃ paragraph, d.meta.childrenMap.get? cellId = some [paragraph] ∧
      CellParagraph toMdast ids d cellId paragraph cell.2

/-- The row block `rowId` of table `tableId` in `d`, for the row of index
`row.1` with cells `row.2`: the block `create_simple_table_row_block` makes
for it, whose list is one cell block per `TableCell` of the row, in order. -/
def RowLayout (d : DocumentData) (tableId : String) (align : List AlignKind) (rowId : String)
    (row : Nat × List Node) : Prop :=
  d.blocks.get? rowId = some (createSimpleTableRowBlock rowId tableId) ∧
    ∃ cellIds, d.meta.childrenMap.get? rowId = some cellIds ∧
      List.Forall₂ (CellLayout toMdast ids d rowId row.1 align) cellIds
        (enumerated tableCellOf 0 row.2)

end Layout

section Tables

variable {toMdast : String → Option (List Node)} {ids : Nat → String} {pageId : String}

theorem CellLayout.transport {s s' : ImportState} (wf' : s'.WellFormed ids pageId)
    (grows : s.Extends s') {owner ownerTy : String}
    (ownerTyped : (s.document.blocks.get? owner).map Block.ty = some ownerTy)
    (other : ownerTy ≠ "simple_table_cell" ∧ ownerTy ≠ "paragraph")
    (keeps : KeepsBut owner s s') {rowId : String} {rowIndex : Nat} {align : List AlignKind}
    {cellId : String} {cell : Nat × List Node}
    (layout : CellLayout toMdast ids s.document rowId rowIndex align cellId cell) :
    CellLayout toMdast ids s'.document rowId rowIndex align cellId cell := by
  obtain ⟨block, paragraph, listed, holds⟩ := layout
  have typed : _ = some "simple_table_cell" := blockTy_of_get? block
  have cellKept := keeps cellId (mem_keys_of_blockTy typed)
    (ne_of_blockTy typed ownerTyped (Ne.symm other.1))
  exact ⟨HashMap.get?_of_prefix grows block, paragraph,
    wf'.childrenMap_get?_of_same grows typed (by decide) listed cellKept.1,
    holds.transport grows ownerTyped other.2 keeps⟩

theorem RowLayout.transport {s s' : ImportState} (wf' : s'.WellFormed ids pageId)
    (grows : s.Extends s') {tableId : String}
    (tableTyped : (s.document.blocks.get? tableId).map Block.ty = some "simple_table")
    (keeps : KeepsBut tableId s s') {align : List AlignKind} {rowId : String}
    {row : Nat × List Node} (layout : RowLayout toMdast ids s.document tableId align rowId row) :
    RowLayout toMdast ids s'.document tableId align rowId row := by
  obtain ⟨block, cellIds, listed, cells⟩ := layout
  have typed : _ = some "simple_table_row" := blockTy_of_get? block
  have rowKept := keeps rowId (mem_keys_of_blockTy typed)
    (ne_of_blockTy typed tableTyped (by decide))
  exact ⟨HashMap.get?_of_prefix grows block, cellIds,
    wf'.childrenMap_get?_of_same grows typed (by decide) listed rowKept.1,
    cells.imp fun _ _ => CellLayout.transport wf' grows tableTyped (by decide) keeps⟩

variable {fuel : Nat} {s s' : ImportState}

theorem processTableRows_keeps (fresh : FreshIds ids pageId) (wf : s.WellFormed ids pageId)
    {tableId : String} {align : List AlignKind} {rowIndex : Nat} {rows : List Node}
    (known : tableId ∈ s.document.blocks.keys)
    (walked : processTableRows toMdast ids fuel s tableId align rowIndex rows = .ok s') :
    KeepsBut tableId s s' :=
  .of_traced fresh wf (fun _ => id) (walked ▸ (walk_traced toMdast ids fuel).2.2.2.2.1 ⟨s, _⟩
    tableId align rowIndex rows [] (Replays.replayLog _))
    ((walk_appends toMdast ids fresh fuel).2.2.2.2.1 _ tableId align rowIndex rows []
      (wf.drawn known))

theorem processTableCells_keeps (fresh : FreshIds ids pageId) (wf : s.WellFormed ids pageId)
    {rowId : String} {rowIndex colIndex : Nat} {align : List AlignKind} {cells : List Node}
    (known : rowId ∈ s.document.blocks.keys)
    (walked : processTableCells toMdast ids fuel s cells rowId rowIndex colIndex align = .ok s') :
    KeepsBut rowId s s' :=
  .of_traced fresh wf (fun _ => id) (walked ▸ (walk_traced toMdast ids fuel).2.2.2.2.2.2.1
    ⟨s, _⟩ cells rowId rowIndex colIndex align [] (Replays.replayLog _))
    ((walk_appends toMdast ids fresh fuel).2.2.2.2.2.2.1 _ cells rowId rowIndex colIndex align []
      (wf.drawn known))

end Tables

end MdImporter
