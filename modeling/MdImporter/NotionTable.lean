import MdImporter.Mdast
import MdImporter.RustStr

/-!
# Notion column tables

Notion exports a multi-column layout as a table whose header cells are all
empty. `parse_notion_columns_table` recognises such tables by counts and a
text-emptiness test of the cells; the walker then rewrites them into columns.
-/

namespace MdImporter

set_option autoImplicit false

open RustStr

mutual
/-- The text `collect_cell_text` gathers from one node: literal text, inline
code and inline math, through Strong, Emphasis, Delete and Link. -/
def collectNodeText : Node → String
  | .text value | .inlineCode value | .inlineMath value => value
  | .strong children | .emphasis children | .delete children | .link _ children =>
      collectCellText children
  | _ => ""

/-- `collect_cell_text`: the text of a sequence of nodes, in order. -/
def collectCellText : List Node → String
  | [] => ""
  | node :: rest => collectNodeText node ++ collectCellText rest
end

/-- `is_table_cell_empty`, on the cell's children. -/
def isTableCellEmpty (children : List Node) : Bool :=
  children.isEmpty || (trim (collectCellText children)).isEmpty

/-- A cell of a header or body row, tested with `is_table_cell_empty`; a node
that is not a `TableCell` does not count as empty. -/
def cellIsEmpty : Node → Bool
  | .tableCell children => isTableCellEmpty children
  | _ => false

/-- What the walker needs of a recognised columns table. -/
structure NotionColumnsTableInfo where
  colCount : Nat
  bodyRows : List Node

/-- `parse_notion_columns_table`, on the table's rows: an all-empty header
row of at least two cells and at least one body row; then either every body
row is a row of that many empty cells and there are at least six columns, or
not, and there are at most five columns and three body rows. -/
def parseNotionColumnsTable (rows : List Node) : Option NotionColumnsTableInfo :=
  match rows with
  | [] => none
  | .tableRow header :: bodyRows =>
      let colCount := header.length
      if colCount < 2 then none
      else if !header.all cellIsEmpty then none
      else if bodyRows.isEmpty then none
      else
        let allBodyEmpty := bodyRows.all fun
          | .tableRow cells => cells.length == colCount && cells.all cellIsEmpty
          | _ => false
        if allBodyEmpty then
          if colCount < 6 then none else some ⟨colCount, bodyRows⟩
        else if colCount > 5 || bodyRows.length > 3 then none
        else some ⟨colCount, bodyRows⟩
  | _ :: _ => none

/-- The test each body row gets for `all_body_empty`: a `TableRow` of exactly
`colCount` cells, all empty. -/
def isEmptyBodyRow (colCount : Nat) : Node → Bool
  | .tableRow cells => cells.length == colCount && cells.all cellIsEmpty
  | _ => false

theorem parseNotionColumnsTable_tableRow (header bodyRows : List Node) :
    parseNotionColumnsTable (.tableRow header :: bodyRows) =
      if header.length < 2 then none
      else if !header.all cellIsEmpty then none
      else if bodyRows.isEmpty then none
      else if bodyRows.all (isEmptyBodyRow header.length) then
        if header.length < 6 then none else some ⟨header.length, bodyRows⟩
      else if header.length > 5 || bodyRows.length > 3 then none
      else some ⟨header.length, bodyRows⟩ :=
  rfl

theorem parseNotionColumnsTable_bodyRows {rows : List Node} {info : NotionColumnsTableInfo}
    (found : parseNotionColumnsTable rows = some info) :
    ∃ header, rows = .tableRow header :: info.bodyRows := by
  unfold parseNotionColumnsTable at found
  split at found
  · cases found
  · rename_i header bodyRows
    refine ⟨header, ?_⟩
    dsimp only at found
    split_ifs at found <;> cases found <;> rfl
  · cases found

/-- A table whose header qualifies, with at most five columns and three body
rows, is accepted as a columns layout as soon as one of its body rows is not a
row of the header's width: the width is tested only inside `all_body_empty`. -/
theorem parseNotionColumnsTable_acceptsRagged (header bodyRows : List Node)
    (wide : 2 ≤ header.length) (narrow : header.length ≤ 5)
    (headerEmpty : ∀ cell ∈ header, cellIsEmpty cell) (few : bodyRows.length ≤ 3)
    (ragged : ∃ row ∈ bodyRows, ∀ cells, row = .tableRow cells → cells.length ≠ header.length) :
    parseNotionColumnsTable (.tableRow header :: bodyRows) = some ⟨header.length, bodyRows⟩ := by
  obtain ⟨row, member, otherWidth⟩ := ragged
  have notAll : bodyRows.all (isEmptyBodyRow header.length) = false :=
    List.all_eq_false.mpr ⟨row, member, by cases row <;> simp_all [isEmptyBodyRow]⟩
  rw [parseNotionColumnsTable_tableRow]
  simp [notAll, List.all_eq_true.mpr headerEmpty, List.ne_nil_of_mem member,
    show ¬ header.length < 2 by omega, show ¬ 5 < header.length by omega,
    show ¬ 3 < bodyRows.length by omega]

theorem parseNotionColumnsTable_acceptsRagged_threeCells :
    2 ≤ [Node.tableCell [], .tableCell []].length ∧ [Node.tableCell [], .tableCell []].length ≤ 5 ∧
      (∀ cell ∈ [Node.tableCell [], .tableCell []], cellIsEmpty cell) ∧
      [Node.tableRow [.tableCell [.text "a"], .tableCell [], .tableCell [.text "c"]]].length ≤ 3 ∧
      (∃ row ∈ [Node.tableRow [.tableCell [.text "a"], .tableCell [], .tableCell [.text "c"]]],
        ∀ cells, row = .tableRow cells → cells.length ≠ [Node.tableCell [], .tableCell []].length) ∧
      parseNotionColumnsTable [.tableRow [.tableCell [], .tableCell []],
          .tableRow [.tableCell [.text "a"], .tableCell [], .tableCell [.text "c"]]] =
        some ⟨2, [.tableRow [.tableCell [.text "a"], .tableCell [], .tableCell [.text "c"]]]⟩ :=
  have wide : 2 ≤ [Node.tableCell [], .tableCell []].length := by decide
  have narrow : [Node.tableCell [], .tableCell []].length ≤ 5 := by decide
  have headerEmpty : ∀ cell ∈ [Node.tableCell [], .tableCell []], cellIsEmpty cell := by decide
  have few : [Node.tableRow [.tableCell [.text "a"], .tableCell [], .tableCell [.text "c"]]].length
      ≤ 3 := by decide
  have ragged : ∃ row ∈ [Node.tableRow [.tableCell [.text "a"], .tableCell [],
      .tableCell [.text "c"]]], ∀ cells, row = .tableRow cells →
        cells.length ≠ [Node.tableCell [], .tableCell []].length :=
    ⟨_, List.mem_singleton_self _, fun _ same => by cases same; decide⟩
  ⟨wide, narrow, headerEmpty, few, ragged,
    parseNotionColumnsTable_acceptsRagged _ _ wide narrow headerEmpty few ragged⟩

end MdImporter
