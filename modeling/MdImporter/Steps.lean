import MdImporter.Walk

/-!
# What one call of the walker does

`processBlockContent` dispatches on twenty-seven kinds of node; `blockContent`
reads off which of six things it does with each, so that proofs about the
walker split on those six. The other lemmas here are the small facts about
the non-recursive helpers that every proof about a run needs.
-/

namespace MdImporter

set_option autoImplicit false

open RustStr

/-- What the `match node` at the end of `process_mdast_node` does. -/
inductive BlockContent where
  /-- Walk these children under the new block (root, paragraph, heading). -/
  | children (children : List Node)
  /-- A blockquote or list item: walk the first child's inline content when it
  is a paragraph, then the rest. -/
  | headed (head : Option (List Node)) (rest : List Node)
  /-- A blockquote or list item without children. -/
  | done
  /-- One plain segment of text for the new block. -/
  | text (value : String)
  /-- The rows of a table that is not a columns layout. -/
  | rows (align : List AlignKind) (rows : List Node)
  /-- The `unreachable!` arm. -/
  | unreachable

/-- The content of a node's block, as `processBlockContent` walks it. -/
def blockContent : Node → BlockContent
  | .root children | .paragraph children | .heading _ children => .children children
  | .blockquote children | .listItem _ children =>
      match children with
      | [] => .done
      | first :: rest =>
          .headed (match first with | .paragraph para => some para | _ => none) rest
  | .code value _ => .text value
  | .table align rows => .rows align rows
  | .image _ => .unreachable
  | node => .text node.toString

section Walk

variable (toMdast : String → Option (List Node)) (ids : Nat → String)

theorem processBlockContent_succ (fuel : Nat) (s : ImportState) (node : Node) (id : String)
    (listType : Option Node.ListType) (startNumber : Option Nat) :
    processBlockContent toMdast ids (fuel + 1) s node id listType startNumber =
      match blockContent node with
      | .children children =>
          processMdastNodeChildren toMdast ids fuel s (some id) .none children none startNumber
      | .headed head rest => do
          let s ← match head with
            | some para =>
                processMdastNodeChildren toMdast ids fuel s (some id) .none para none startNumber
            | none => .ok s
          processMdastNodeChildren toMdast ids fuel s (some id) .none rest listType startNumber
      | .done => .ok s
      | .text value => .ok (s.edit (·.insertDeltaToTextMap id [⟨value, []⟩]))
      | .rows align rows => processTableRows toMdast ids fuel s id align 0 rows
      | .unreachable => .error imageUnreachable := by
  cases node
  case blockquote children | listItem _ children =>
    cases children with
    | nil => rfl
    | cons first rest => cases first <;> rfl
  all_goals rfl

theorem processTableRows_succ (fuel : Nat) (s : ImportState) (tableId : String)
    (align : List AlignKind) (rowIndex : Nat) (row : Node) (rows : List Node) :
    processTableRows toMdast ids (fuel + 1) s tableId align rowIndex (row :: rows) = (do
      let s ← match tableRowOf row with
        | some cells => processTableRow toMdast ids fuel s cells rowIndex tableId align
        | none => .ok s
      processTableRows toMdast ids fuel s tableId align (rowIndex + 1) rows) := by
  cases row <;> rfl

theorem processTableCells_succ (fuel : Nat) (s : ImportState) (cell : Node) (cells : List Node)
    (rowId : String) (rowIndex colIndex : Nat) (align : List AlignKind) :
    processTableCells toMdast ids (fuel + 1) s (cell :: cells) rowId rowIndex colIndex align =
      (do
        let s ← match tableCellOf cell with
          | some children =>
              let (paragraphBlockId, s) := createParagraphBlock ids
                ({ s with issued := s.issued + 1 }.edit (·.registerBlock (ids s.issued)
                  (createSimpleTableCellBlock (ids s.issued) rowId rowIndex colIndex align)
                  (some rowId))) (ids s.issued)
              processMdastNodeChildren toMdast ids fuel s (some paragraphBlockId) .none children
                none none
          | none => .ok s
        processTableCells toMdast ids fuel s cells rowId rowIndex (colIndex + 1) align) := by
  cases cell <;> rfl

end Walk

/-- A blockquote whose first child is a heading, as markdown-rs parses
`> # Title`: the `.headed none` arm walks only the other children, so the quote
block gets neither text nor children, and the heading's text is in no delta of
the snapshot. -/
theorem importMd_headedQuote_dropsHeading :
    ∃ d, (⟨fun md =>
        if md = "> # Title" then some [.blockquote [.heading 1 [.text "Title"]]]
        else none⟩ : MDImporter).importMd (fun n => ⟨List.replicate (n + 1) 'b'⟩) 10 "P"
          "> # Title" = .ok (.ok d) ∧
      d.blocks.keys = ["P", "b"] ∧ (d.blocks.get? "b").map Block.ty = some "quote" ∧
      d.meta.childrenMap.get? "b" = some [] ∧ d.meta.textMap.keys = [] :=
  ⟨_, rfl, rfl, rfl, rfl, rfl⟩

/-- The state after `import`'s call on the root has made the page block. -/
def pageState (documentId : String) (children : List Node) : ImportState :=
  ⟨(DocumentData.initial documentId).registerBlock documentId
    (createBlock documentId (.root children) none none none) none, 0⟩

/-- `import` makes the page block from the root and walks the root's
children under it. -/
theorem importMd_succ (importer : MDImporter) (ids : Nat → String) (fuel : Nat)
    (documentId md : String) :
    importer.importMd ids (fuel + 1) documentId md =
      (match importer.toMdast md with
      | none => .ok (.error .parseMarkdownError)
      | some children => do
          let s ← processBlockContent importer.toMdast ids fuel (pageState documentId children)
            (.root children) documentId none none
          pure (.ok s.document)) := by
  unfold MDImporter.importMd
  cases importer.toMdast md <;> rfl

theorem importMd_zero (importer : MDImporter) (ids : Nat → String) (documentId md : String) :
    importer.importMd ids 0 documentId md =
      match importer.toMdast md with
      | none => .ok (.error .parseMarkdownError)
      | some _ => .error .outOfFuel := by
  unfold MDImporter.importMd
  cases importer.toMdast md <;> rfl

theorem blockContent_eq_unreachable {node : Node} (unreachable : blockContent node = .unreachable) :
    ∃ url, node = .image url := by
  cases node <;> simp_all [blockContent]
  all_goals
    rename_i children
    cases children <;> simp_all

theorem imageOf_ok (node : Node) : ∃ url, imageOf node = .ok url := by
  cases node <;> simp only [imageOf] <;> try exact ⟨_, rfl⟩
  rename_i children
  cases children with
  | nil => exact ⟨none, rfl⟩
  | cons first rest =>
      cases rest with
      | nil => cases first <;> exact ⟨_, rfl⟩
      | cons => exact ⟨none, rfl⟩

@[simp] theorem imageOf_image (url : String) : imageOf (.image url) = .ok (some url) := rfl

theorem classifySibling_eq_details {node : Node} {value : String}
    (classified : classifySibling node = .details value) :
    ∃ raw, node = .html raw ∧ value = trim raw := by
  cases node <;> simp only [classifySibling, reduceCtorEq] at classified
  refine ⟨_, rfl, ?_⟩
  repeat' split at classified
  all_goals cases classified <;> rfl

theorem classifyToggleSibling_eq_summary {summaryWritten : Bool} {node : Node} {value : String}
    (classified : classifyToggleSibling summaryWritten node = .summary value) :
    ∃ raw, node = .html raw ∧ value = trim raw := by
  cases node <;> simp only [classifyToggleSibling, reduceCtorEq] at classified
  refine ⟨_, rfl, ?_⟩
  repeat' split at classified
  all_goals cases classified <;> rfl

@[simp] theorem generateId_fst (ids : Nat → String) (s : ImportState) :
    (generateId ids s).1 = ids s.issued := rfl

@[simp] theorem generateId_snd_issued (ids : Nat → String) (s : ImportState) :
    (generateId ids s).2.issued = s.issued + 1 := rfl

@[simp] theorem generateId_snd_document (ids : Nat → String) (s : ImportState) :
    (generateId ids s).2.document = s.document := rfl

end MdImporter
