import MdImporter.Steps

/-!
# Where images go

`process_mdast_node` flattens an image, or a paragraph whose only child is an
image, into an image block under the parent it is walked under. The promotion
happens at the node being walked, so it lifts an image out of a Markdown
paragraph but not out of the paragraph that `process_table_row` makes for a
cell itself: that paragraph exists before the cell's children are walked, and
an image that is a cell's only content becomes the only child of a paragraph
without text (`processTableCells_imageCell`). The columns rewrite skips such a
cell instead, since `is_table_cell_empty` finds no text in it.
-/

namespace MdImporter

set_option autoImplicit false

section Walk

variable (toMdast : String → Option (List Node)) (ids : Nat → String)

theorem processTableCells_imageCell (fuel : Nat) (s : ImportState) (url rowId : String)
    (rowIndex colIndex : Nat) (align : List AlignKind) :
    processTableCells toMdast ids (fuel + 3) s [.tableCell [.image url]] rowId rowIndex colIndex
        align =
      let cell := { s with issued := s.issued + 1 }.edit (·.registerBlock (ids s.issued)
        (createSimpleTableCellBlock (ids s.issued) rowId rowIndex colIndex align) (some rowId))
      let paragraph := createParagraphBlock ids cell (ids s.issued)
      .ok (processImage ids paragraph.2 url paragraph.1) := by
  simp only [processTableCells, processMdastNodeChildren, classifySibling, generateId]
  rw [processMdastNode.eq_2]
  rfl

end Walk

/-- A one-column table whose only cell is an image, as markdown-rs parses
`| ![](x.png) |` over `| --- |`: the cell's paragraph `bbbb` gets no text and
the image `bbbbb` as its only child. -/
theorem importMd_imageCell_unpromoted :
    ∃ d, (⟨fun md =>
        if md = "| ![](x.png) |\n| --- |" then
          some [.table [.none] [.tableRow [.tableCell [.image "x.png"]]]]
        else none⟩ : MDImporter).importMd (fun n => ⟨List.replicate (n + 1) 'b'⟩) 12 "P"
          "| ![](x.png) |\n| --- |" = .ok (.ok d) ∧
      (d.blocks.get? "bbbb").map Block.ty = some "paragraph" ∧
      d.meta.textMap.get? "bbbb" = none ∧ d.meta.childrenMap.get? "bbbb" = some ["bbbbb"] ∧
      (d.blocks.get? "bbbbb").map Block.ty = some "image" :=
  ⟨_, rfl, rfl, rfl, rfl, rfl⟩

end MdImporter
