import MdImporter.Renaming

/-!
# The walk, traced

The walker keeps no record of the source node a block or a segment came
from. The traced walk is the walker with that record kept: every function of
the recursion also takes the position of what it works on, the path of child
indices from the root, and appends to a log an entry for each node it
visits, each block it makes and each segment it writes, in the order it does
so. A fragment re-parsed out of the `Html` node at `p` is placed under `p`:
a callout's content and a toggle's summary at `p ++ [0]`, a toggle's body at
`p ++ [1]`. The cells of a table's row `r` are at `p ++ [r, c]`, where `p` is
the table's position; a column of the columns rewrite stands at its header
cell, `p ++ [0, c]`.

`walk_traced` shows that the traced walk computes the walker's states and
that its log replays the children lists and the deltas of the document.
-/

namespace MdImporter

set_option autoImplicit false

open RustStr

/-- What the walk did at a position of the source: visit a node, make a
block under a parent, or write a segment to a block's delta. -/
inductive Entry where
  | visit (pos : List Nat)
  | block (id : String) (parent : Option String) (pos : List Nat)
  | text (key : String) (segment : TextInsert) (pos : List Nat)
  deriving DecidableEq, Repr

namespace Entry

/-- The position of the node an entry was made for. -/
def pos : Entry → List Nat
  | .visit pos | .block _ _ pos | .text _ _ pos => pos

/-- The block whose children list or delta an entry extends. -/
def owner : Entry → Option String
  | .visit _ => none
  | .block _ parent _ => parent
  | .text key _ _ => some key

/-- A block made under `q`, with its position. -/
def childOf (q : String) : Entry → Option (String × List Nat)
  | .block id (some parent) pos => if q = parent then some (id, pos) else none
  | _ => none

/-- A segment written to `q`'s delta, with its position. -/
def textOf (q : String) : Entry → Option (TextInsert × List Nat)
  | .text key segment pos => if q = key then some (segment, pos) else none
  | _ => none

/-- The position of a visit. -/
def visited : Entry → Option (List Nat)
  | .visit pos => some pos
  | _ => none

end Entry

/-- The entries for segments written to `key`'s delta. -/
def textEntries (key : String) (segments : List (TextInsert × List Nat)) : List Entry :=
  segments.map fun segment => .text key segment.1 segment.2

mutual
/-- `inlineDelta` with the position of the leaf each segment comes from: a
wrapper's leaves are its children's, at `pos ++ [k]`. -/
def inlineDeltaAt (attributes : List Attribute) (pos : List Nat) :
    Node → List (TextInsert × List Nat)
  | .text value => [(⟨value, attributes⟩, pos)]
  | .inlineCode value => [(⟨value, addAttribute attributes .code⟩, pos)]
  | .inlineMath value => [(⟨value, addAttribute attributes .mathInline⟩, pos)]
  | .strong children => inlineDeltaListAt (addAttribute attributes .bold) pos 0 children
  | .emphasis children => inlineDeltaListAt (addAttribute attributes .italic) pos 0 children
  | .delete children =>
      inlineDeltaListAt (addAttribute attributes .strikethrough) pos 0 children
  | .link url children => inlineDeltaListAt (addAttribute attributes (.href url)) pos 0 children
  | .break => [(⟨"\n", []⟩, pos)]
  | node => [(⟨node.toString, []⟩, pos)]

/-- `inlineDeltaList` for siblings at `base ++ [index]`, `base ++ [index + 1]`, .... -/
def inlineDeltaListAt (attributes : List Attribute) (base : List Nat) (index : Nat) :
    List Node → List (TextInsert × List Nat)
  | [] => []
  | node :: rest =>
      inlineDeltaAt attributes (base ++ [index]) node ++
        inlineDeltaListAt attributes base (index + 1) rest
end

/-- The segments `insertInlineChild` writes for the children of a re-parsed
paragraph or heading, the child at `base ++ [index]` first. -/
def inlineChildrenAt (base : List Nat) (index : Nat) : List Node → List (TextInsert × List Nat)
  | [] => []
  | child :: rest =>
      (if child.isInlineNode then inlineDeltaAt [] (base ++ [index]) child
        else [(⟨child.toString, []⟩, base ++ [index])]) ++
        inlineChildrenAt base (index + 1) rest

/-- The segments the fold of `insertMarkdownAsInlineDelta` writes for the
nodes of a re-parsed fragment, the node at `base ++ [index]` first. -/
def fragmentDeltaAt (base : List Nat) (index : Nat) : List Node → List (TextInsert × List Nat)
  | [] => []
  | child :: rest =>
      (match child with
        | .paragraph inline | .heading _ inline => inlineChildrenAt (base ++ [index]) 0 inline
        | _ => [(⟨child.toString, []⟩, base ++ [index])]) ++
        fragmentDeltaAt base (index + 1) rest

/-- The segments `insertMarkdownAsInlineDelta` writes for a fragment at
`base`: none for blank text, the trimmed text at `base` when it does not
parse. -/
def markdownDeltaAt (toMdast : String → Option (List Node)) (markdown : String)
    (base : List Nat) : List (TextInsert × List Nat) :=
  let md := trim markdown
  if md.isEmpty then []
  else match toMdast md with
    | none => [(⟨md, []⟩, base)]
    | some children => fragmentDeltaAt base 0 children

/-- The entries of `processInlineMdastNode` for the node at `pos`. -/
def inlineEntries (node : Node) (parentId : Option String) (pos : List Nat) : List Entry :=
  match parentId with
  | some parent => textEntries parent (inlineDeltaAt [] pos node)
  | none => []

/-- The importer's state and the log of what the walk did so far. -/
structure Traced where
  state : ImportState
  log : List Entry

namespace Traced

/-- Apply a document operation. -/
def edit (t : Traced) (f : DocumentData → DocumentData) : Traced :=
  { t with state := t.state.edit f }

/-- `generate_id` on the traced state. -/
def draw (ids : Nat → String) (t : Traced) : String × Traced :=
  ((generateId ids t.state).1, { t with state := (generateId ids t.state).2 })

/-- Append entries to the log. -/
def note (t : Traced) (entries : List Entry) : Traced :=
  { t with log := t.log ++ entries }

@[simp] theorem edit_state (t : Traced) (f : DocumentData → DocumentData) :
    (t.edit f).state = t.state.edit f := rfl

@[simp] theorem edit_log (t : Traced) (f : DocumentData → DocumentData) :
    (t.edit f).log = t.log := rfl

@[simp] theorem draw_fst (ids : Nat → String) (t : Traced) :
    (t.draw ids).1 = ids t.state.issued := rfl

@[simp] theorem draw_state (ids : Nat → String) (t : Traced) :
    (t.draw ids).2.state = (generateId ids t.state).2 := rfl

@[simp] theorem draw_log (ids : Nat → String) (t : Traced) : (t.draw ids).2.log = t.log := rfl

@[simp] theorem note_state (t : Traced) (entries : List Entry) :
    (t.note entries).state = t.state := rfl

@[simp] theorem note_log (t : Traced) (entries : List Entry) :
    (t.note entries).log = t.log ++ entries := rfl

end Traced

section Walk

variable (toMdast : String → Option (List Node)) (ids : Nat → String)

mutual

/-- `processMdastNode` for the node at `pos`. -/
def processMdastNodeTraced : Nat → Traced → Node → List Nat → Option String →
    Option String → Option Node.ListType → Option Nat → Except Fault Traced
  | 0, _, _, _, _, _, _, _ => .error .outOfFuel
  | fuel + 1, t, node, pos, parentId, blockId, listType, startNumber =>
    let t := t.note [.visit pos]
    if node.isInlineNode then
      .ok ((t.edit (·.processInlineMdastNode node parentId)).note
        (inlineEntries node parentId pos))
    else if isClosingSentinel node then .ok t
    else match node.getMdastNodeInfo with
    | some (children, listType, startNumber) =>
        processMdastNodeChildrenTraced fuel t parentId .none children pos 0 (some listType)
          startNumber
    | none => do
      match ← imageOf node, parentId with
      | some url, some parent =>
          .ok ({ t with state := processImage ids t.state url parent }.note
            [.block (ids t.state.issued) (some parent) pos])
      | _, _ =>
      match notionColumnsOf node with
      | some info =>
          let (id, s) := idOrGenerate ids blockId t.state
          let t := ({ t with state := s }.edit (·.registerBlock id
            (containerBlock .simpleColumns id HashMap.empty (parentId.getD "")) parentId)).note
              [.block id parentId pos]
          processNotionColumnsTraced fuel t id info.bodyRows (List.range info.colCount) pos
      | none =>
          let (id, s) := idOrGenerate ids blockId t.state
          let t := ({ t with state := s }.edit (·.registerBlock id
            (createBlock id node parentId listType startNumber) parentId)).note
              [.block id parentId pos]
          processBlockContentTraced fuel t node id pos listType startNumber
termination_by structural fuel => fuel

/-- `processBlockContent` for the node at `pos`: its children at `pos ++ [k]`,
the first paragraph's inline content at `pos ++ [0, k]`. -/
def processBlockContentTraced : Nat → Traced → Node → String → List Nat →
    Option Node.ListType → Option Nat → Except Fault Traced
  | 0, _, _, _, _, _, _ => .error .outOfFuel
  | fuel + 1, t, node, id, pos, listType, startNumber =>
    match node with
    | .root children | .paragraph children | .heading _ children =>
        processMdastNodeChildrenTraced fuel t (some id) .none children pos 0 none startNumber
    | .blockquote children | .listItem _ children =>
        match children with
        | [] => .ok t
        | first :: rest => do
            let t ← match first with
              | .paragraph para =>
                  processMdastNodeChildrenTraced fuel (t.note [.visit (pos ++ [0])]) (some id)
                    .none para (pos ++ [0]) 0 none startNumber
              | _ => .ok t
            processMdastNodeChildrenTraced fuel t (some id) .none rest pos 1 listType startNumber
    | .code value _ =>
        .ok ((t.edit (·.insertDeltaToTextMap id [⟨value, []⟩])).note
          [.text id ⟨value, []⟩ pos])
    | .table align rows => processTableRowsTraced fuel t id align 0 rows pos
    | .image _ => .error imageUnreachable
    | _ => .ok ((t.edit (·.insertDeltaToTextMap id [⟨node.toString, []⟩])).note
        [.text id ⟨node.toString, []⟩ pos])
termination_by structural fuel => fuel

/-- `processMdastNodeChildren` for siblings at `base ++ [index]`,
`base ++ [index + 1]`, .... -/
def processMdastNodeChildrenTraced : Nat → Traced → Option String → Pending → List Node →
    List Nat → Nat → Option Node.ListType → Option Nat → Except Fault Traced
  | 0, _, _, _, _, _, _, _, _ => .error .outOfFuel
  | _ + 1, t, _, _, [], _, _, _, _ => .ok t
  | fuel + 1, t, parentId, .none, node :: rest, base, index, listType, startNumber =>
      match classifySibling node with
      | .closing =>
          processMdastNodeChildrenTraced fuel (t.note [.visit (base ++ [index])]) parentId .none
            rest base (index + 1) listType startNumber
      | .aside callout =>
          let (calloutId, t) := (t.note [.visit (base ++ [index])]).draw ids
          let t := (t.edit fun d => (d.insertBlock calloutId
            (calloutBlock calloutId callout.icon parentId)).updateChildrenMap parentId
              calloutId).note [.block calloutId parentId (base ++ [index])]
          let t := (t.edit (·.insertMarkdownAsInlineDelta toMdast calloutId callout.content)).note
            (textEntries calloutId (markdownDeltaAt toMdast callout.content (base ++ [index, 0])))
          processMdastNodeChildrenTraced fuel t parentId (.callout calloutId) rest base (index + 1)
            listType startNumber
      | .details value => do
          let (toggleId, t) := (t.note [.visit (base ++ [index])]).draw ids
          let t := (t.edit fun d => (d.insertBlock toggleId
            (containerBlock .toggleList toggleId HashMap.empty
              (parentId.getD ""))).updateChildrenMap parentId toggleId).note
                [.block toggleId parentId (base ++ [index])]
          let (t, summaryWritten) ← match ← parseDetailsHtml value with
            | some details => do
                let t := (t.edit (·.insertMarkdownAsInlineDelta toMdast toggleId
                  details.summary)).note (textEntries toggleId
                    (markdownDeltaAt toMdast details.summary (base ++ [index, 0])))
                let t ← processToggleBodyTraced fuel t toggleId details.body (base ++ [index, 1])
                pure (t, true)
            | none => pure (t, false)
          processMdastNodeChildrenTraced fuel t parentId (.toggle toggleId summaryWritten) rest base
            (index + 1) listType startNumber
      | .other => do
          let t ← processMdastNodeTraced fuel t node (base ++ [index]) parentId none listType
            startNumber
          processMdastNodeChildrenTraced fuel t parentId .none rest base (index + 1) listType
            startNumber
  | fuel + 1, t, parentId, .callout calloutId, node :: rest, base, index, listType,
      startNumber =>
      if isHtmlTag "</aside>" node then
        processMdastNodeChildrenTraced fuel (t.note [.visit (base ++ [index])]) parentId .none rest
          base (index + 1) listType startNumber
      else do
        let t ← processMdastNodeTraced fuel t node (base ++ [index]) (some calloutId) none
          listType startNumber
        processMdastNodeChildrenTraced fuel t parentId (.callout calloutId) rest base (index + 1)
          listType startNumber
  | fuel + 1, t, parentId, .toggle toggleId summaryWritten, node :: rest, base, index, listType,
      startNumber =>
      match classifyToggleSibling summaryWritten node with
      | .close =>
          processMdastNodeChildrenTraced fuel (t.note [.visit (base ++ [index])]) parentId .none
            rest base (index + 1) listType startNumber
      | .summary value => do
          let t := t.note [.visit (base ++ [index])]
          match ← extractTagContent value "summary" with
          | some (summary, after) =>
              let t := (t.edit (·.insertMarkdownAsInlineDelta toMdast toggleId summary)).note
                (textEntries toggleId (markdownDeltaAt toMdast summary (base ++ [index, 0])))
              let t ← processToggleBodyTraced fuel t toggleId (trim after) (base ++ [index, 1])
              processMdastNodeChildrenTraced fuel t parentId (.toggle toggleId true) rest base
                (index + 1) listType startNumber
          | none =>
              processMdastNodeChildrenTraced fuel t parentId (.toggle toggleId summaryWritten) rest
                base (index + 1) listType startNumber
      | .other => do
          let t ← processMdastNodeTraced fuel t node (base ++ [index]) (some toggleId) none
            listType startNumber
          processMdastNodeChildrenTraced fuel t parentId (.toggle toggleId summaryWritten) rest base
            (index + 1) listType startNumber
termination_by structural fuel => fuel

/-- `processToggleBody` for a fragment at `base`: its nodes at `base ++ [k]`. -/
def processToggleBodyTraced : Nat → Traced → String → String → List Nat →
    Except Fault Traced
  | 0, _, _, _, _ => .error .outOfFuel
  | fuel + 1, t, toggleId, body, base =>
      if (trim body).isEmpty then .ok t
      else match toMdast body with
        | some children =>
            processMdastNodeChildrenTraced fuel t (some toggleId) .none children base 0 none none
        | none => .ok t
termination_by structural fuel => fuel

/-- `processTableRows` for the table at `pos`: row `r` at `pos ++ [r]`. -/
def processTableRowsTraced : Nat → Traced → String → List AlignKind → Nat → List Node →
    List Nat → Except Fault Traced
  | 0, _, _, _, _, _, _ => .error .outOfFuel
  | _ + 1, t, _, _, _, [], _ => .ok t
  | fuel + 1, t, tableId, align, rowIndex, row :: rows, pos => do
      let t ← match row with
        | .tableRow cells =>
            processTableRowTraced fuel t cells rowIndex tableId align (pos ++ [rowIndex])
        | _ => .ok t
      processTableRowsTraced fuel t tableId align (rowIndex + 1) rows pos
termination_by structural fuel => fuel

/-- `processTableRow` for the row at `pos`. -/
def processTableRowTraced : Nat → Traced → List Node → Nat → String → List AlignKind →
    List Nat → Except Fault Traced
  | 0, _, _, _, _, _, _ => .error .outOfFuel
  | fuel + 1, t, cells, rowIndex, tableId, align, pos =>
      let (rowId, t) := (t.note [.visit pos]).draw ids
      let t := (t.edit (·.registerBlock rowId (createSimpleTableRowBlock rowId tableId)
        (some tableId))).note [.block rowId (some tableId) pos]
      processTableCellsTraced fuel t cells rowId rowIndex 0 align pos
termination_by structural fuel => fuel

/-- The loop over the cells of the row at `pos`: cell `c` at `pos ++ [c]`; the
cell's paragraph has the cell's position. -/
def processTableCellsTraced : Nat → Traced → List Node → String → Nat → Nat →
    List AlignKind → List Nat → Except Fault Traced
  | 0, _, _, _, _, _, _, _ => .error .outOfFuel
  | _ + 1, t, [], _, _, _, _, _ => .ok t
  | fuel + 1, t, cell :: cells, rowId, rowIndex, colIndex, align, pos => do
      let t ← match cell with
        | .tableCell children =>
            let (cellId, t) := (t.note [.visit (pos ++ [colIndex])]).draw ids
            let t := (t.edit (·.registerBlock cellId
              (createSimpleTableCellBlock cellId rowId rowIndex colIndex align) (some rowId))).note
                [.block cellId (some rowId) (pos ++ [colIndex])]
            let (paragraphBlockId, s) := createParagraphBlock ids t.state cellId
            let t := { t with state := s }.note
              [.block paragraphBlockId (some cellId) (pos ++ [colIndex])]
            processMdastNodeChildrenTraced fuel t (some paragraphBlockId) .none children
              (pos ++ [colIndex]) 0 none none
        | _ => .ok t
      processTableCellsTraced fuel t cells rowId rowIndex (colIndex + 1) align pos
termination_by structural fuel => fuel

/-- The columns rewrite's loop over the columns of the table at `pos`: column
`c` at its header cell, `pos ++ [0, c]`. -/
def processNotionColumnsTraced : Nat → Traced → String → List Node → List Nat →
    List Nat → Except Fault Traced
  | 0, _, _, _, _, _ => .error .outOfFuel
  | _ + 1, t, _, _, [], _ => .ok t
  | fuel + 1, t, columnsId, bodyRows, colIndex :: colIndices, pos => do
      let (columnId, t) := t.draw ids
      let t := (t.edit (·.registerBlock columnId
        (containerBlock .simpleColumn columnId HashMap.empty columnsId) (some columnsId))).note
          [.block columnId (some columnsId) (pos ++ [0, colIndex])]
      let t ← processNotionColumnRowsTraced fuel t columnId colIndex bodyRows pos 1
      processNotionColumnsTraced fuel t columnsId bodyRows colIndices pos
termination_by structural fuel => fuel

/-- The columns rewrite's loop over the body rows of the table at `pos`, the
row at `pos ++ [rowIndex]` first: the cell of column `c` at
`pos ++ [rowIndex, c]`, its paragraph at the cell's position. -/
def processNotionColumnRowsTraced : Nat → Traced → String → Nat → List Node → List Nat →
    Nat → Except Fault Traced
  | 0, _, _, _, _, _, _ => .error .outOfFuel
  | _ + 1, t, _, _, [], _, _ => .ok t
  | fuel + 1, t, columnId, colIndex, row :: rows, pos, rowIndex => do
      let t ← match row with
        | .tableRow cells =>
            match cells[colIndex]? with
            | some (.tableCell children) =>
                let t := t.note [.visit (pos ++ [rowIndex, colIndex])]
                if isTableCellEmpty children then .ok t
                else
                  let (paragraphBlockId, s) := createParagraphBlock ids t.state columnId
                  let t := { t with state := s }.note
                    [.block paragraphBlockId (some columnId) (pos ++ [rowIndex, colIndex])]
                  processMdastNodeChildrenTraced fuel t (some paragraphBlockId) .none children
                    (pos ++ [rowIndex, colIndex]) 0 none none
            | _ => .ok t
        | _ => .ok t
      processNotionColumnRowsTraced fuel t columnId colIndex rows pos (rowIndex + 1)
termination_by structural fuel => fuel
end

end Walk

/-- `import`, traced: the root at the empty position. -/
def MDImporter.importMdTraced (importer : MDImporter) (ids : Nat → String) (fuel : Nat)
    (documentId md : String) : Except Fault (Except DocumentError Traced) :=
  match importer.toMdast md with
  | none => .ok (.error .parseMarkdownError)
  | some children => do
      let t ← processMdastNodeTraced importer.toMdast ids fuel
        ⟨⟨.initial documentId, 0⟩, []⟩ (.root children) [] none (some documentId) none none
      pure (.ok t)

/-- The page block alone, after the root's visit: the traced state `import`
walks the root's children from. -/
def pageTraced (documentId : String) (children : List Node) : Traced :=
  ⟨pageState documentId children, [.visit [], .block documentId none []]⟩

theorem importMdTraced_succ (importer : MDImporter) (ids : Nat → String) (fuel : Nat)
    (documentId md : String) :
    importer.importMdTraced ids (fuel + 1) documentId md =
      (match importer.toMdast md with
      | none => .ok (.error .parseMarkdownError)
      | some children => do
          let t ← processBlockContentTraced importer.toMdast ids fuel
            (pageTraced documentId children) (.root children) documentId [] none none
          pure (.ok t)) := by
  unfold MDImporter.importMdTraced
  cases importer.toMdast md <;> rfl

namespace HashMap

variable {β : Type}

theorem getD_upsert_append (m : HashMap (List β)) (key q : String) (xs : List β) :
    ((m.upsert key [] (· ++ xs)).get? q).getD [] =
      (m.get? q).getD [] ++ if q = key then xs else [] := by
  rw [get?_upsert]
  split
  · subst q
    simp
  · simp

theorem getD_upsert_id (m : HashMap (List β)) (key q : String) :
    ((m.upsert key [] id).get? q).getD [] = (m.get? q).getD [] := by
  rw [get?_upsert]
  split
  · subst q
    rfl
  · rfl

end HashMap

namespace Entry

theorem childOf_block (q id : String) (parentId : Option String) (pos : List Nat) :
    childOf q (.block id parentId pos) = if parentId = some q then some (id, pos) else none := by
  cases parentId with
  | none => rfl
  | some parent => by_cases same : q = parent <;> simp [childOf, same, eq_comm]

end Entry

theorem filterMap_childOf_textEntries (q key : String) (segments : List (TextInsert × List Nat)) :
    (textEntries key segments).filterMap (Entry.childOf q) = [] := by
  induction segments <;> simp_all [textEntries, Entry.childOf]

theorem filterMap_textOf_textEntries (q key : String) (segments : List (TextInsert × List Nat)) :
    (textEntries key segments).filterMap (Entry.textOf q) = if q = key then segments else [] := by
  induction segments with
  | nil => simp [textEntries]
  | cons segment rest restFiltered =>
      by_cases same : q = key <;> simp_all [textEntries, Entry.textOf]

mutual
theorem inlineDeltaAt_fst (attributes : List Attribute) (pos : List Nat) :
    ∀ node, (inlineDeltaAt attributes pos node).map Prod.fst = inlineDelta attributes node
  | .strong children | .emphasis children | .delete children | .link _ children =>
      inlineDeltaListAt_fst _ pos 0 children
  | .text _ | .inlineCode _ | .inlineMath _ | .break => rfl
  | .root _ | .blockquote _ | .footnoteDefinition _ | .list _ _ _ | .listItem _ _
  | .paragraph _ | .heading _ _ | .thematicBreak | .code _ _ | .math _ | .html _ | .table _ _
  | .tableRow _ | .tableCell _ | .definition _ | .image _ | .linkReference _ | .imageReference
  | .footnoteReference => rfl

theorem inlineDeltaListAt_fst (attributes : List Attribute) (base : List Nat) (index : Nat) :
    ∀ nodes, (inlineDeltaListAt attributes base index nodes).map Prod.fst =
      inlineDeltaList attributes nodes
  | [] => rfl
  | node :: rest => by
      rw [inlineDeltaListAt, inlineDeltaList, List.map_append, inlineDeltaAt_fst,
        inlineDeltaListAt_fst]
end

/-- The log replays a document: each block's children list is the blocks made
under it, and its delta the segments written to it, both in log order. -/
structure Replays (d : DocumentData) (log : List Entry) : Prop where
  children : ∀ q, (d.meta.childrenMap.get? q).getD [] =
    (log.filterMap (Entry.childOf q)).map Prod.fst
  text : ∀ q, (d.meta.textMap.get? q).getD [] = (log.filterMap (Entry.textOf q)).map Prod.fst

namespace Replays

variable {d : DocumentData} {log : List Entry}

theorem initial (documentId : String) : Replays (.initial documentId) [] where
  children _ := rfl
  text _ := rfl

theorem visit (replays : Replays d log) (pos : List Nat) : Replays d (log ++ [.visit pos]) where
  children q := by simpa [Entry.childOf] using replays.children q
  text q := by simpa [Entry.textOf] using replays.text q

theorem children_update (replays : Replays d log) (id : String) (parentId : Option String)
    (pos : List Nat) (q : String) :
    ((d.updateChildrenMap parentId id).meta.childrenMap.get? q).getD [] =
      ((log ++ [Entry.block id parentId pos]).filterMap (Entry.childOf q)).map Prod.fst := by
  rw [List.filterMap_append, List.map_append, ← replays.children q]
  cases parentId with
  | none => simp [DocumentData.updateChildrenMap, Entry.childOf]
  | some parent =>
      by_cases same : q = parent <;>
        simp [DocumentData.updateChildrenMap, HashMap.getD_upsert_append, Entry.childOf, same]

theorem registerBlock (replays : Replays d log) (id : String) (block : Block)
    (parentId : Option String) (pos : List Nat) :
    Replays (d.registerBlock id block parentId) (log ++ [.block id parentId pos]) where
  children q := by
    rw [← (show Replays ((d.insertBlock id block).ensureChildrenMapEntry id) log from
      ⟨fun q => by simpa [DocumentData.ensureChildrenMapEntry, HashMap.getD_upsert_id] using
        replays.children q, replays.text⟩).children_update id parentId pos q]
    rfl
  text q := by simpa [DocumentData.registerBlock, Entry.textOf] using replays.text q

theorem attachBlock (replays : Replays d log) (id : String) (block : Block)
    (parentId : Option String) (pos : List Nat) :
    Replays ((d.insertBlock id block).updateChildrenMap parentId id)
      (log ++ [.block id parentId pos]) where
  children q := (show Replays (d.insertBlock id block) log from
    ⟨replays.children, replays.text⟩).children_update id parentId pos q
  text q := by simpa [Entry.textOf] using replays.text q

theorem insertDeltaToTextMap (replays : Replays d log) (key : String)
    (segments : List (TextInsert × List Nat)) :
    Replays (d.insertDeltaToTextMap key (segments.map Prod.fst))
      (log ++ textEntries key segments) where
  children q := by
    simpa [filterMap_childOf_textEntries] using replays.children q
  text q := by
    rw [List.filterMap_append, List.map_append, filterMap_textOf_textEntries, ← replays.text q]
    simp only [DocumentData.insertDeltaToTextMap, HashMap.getD_upsert_append]
    split <;> simp

theorem processInlineMdastNode (replays : Replays d log) (node : Node) (parentId : Option String)
    (pos : List Nat) :
    Replays (d.processInlineMdastNode node parentId) (log ++ inlineEntries node parentId pos) := by
  cases parentId with
  | none => simpa [DocumentData.processInlineMdastNode, inlineEntries] using replays
  | some parent =>
      have written := replays.insertDeltaToTextMap parent (inlineDeltaAt [] pos node)
      rwa [inlineDeltaAt_fst] at written

theorem insertInlineChild (replays : Replays d log) (key : String) (child : Node)
    (pos : List Nat) :
    Replays (d.insertInlineChild key child)
      (log ++ textEntries key (if child.isInlineNode then inlineDeltaAt [] pos child
        else [(⟨child.toString, []⟩, pos)])) := by
  unfold DocumentData.insertInlineChild
  split
  · exact replays.processInlineMdastNode child (some key) pos
  · exact replays.insertDeltaToTextMap key [(⟨child.toString, []⟩, pos)]

theorem insertMarkdownAsInlineDelta (replays : Replays d log)
    (toMdast : String → Option (List Node)) (key markdown : String) (base : List Nat) :
    Replays (d.insertMarkdownAsInlineDelta toMdast key markdown)
      (log ++ textEntries key (markdownDeltaAt toMdast markdown base)) := by
  have inline : ∀ (inline : List Node) (pos : List Nat) (index : Nat) (d : DocumentData) log,
      Replays d log → Replays (inline.foldl (fun d c => d.insertInlineChild key c) d)
        (log ++ textEntries key (inlineChildrenAt pos index inline)) := by
    intro inline pos
    induction inline with
    | nil => intro _ d log replays; simpa [inlineChildrenAt, textEntries] using replays
    | cons child rest folded =>
        intro index d log replays
        have next := folded (index + 1) _ _ (replays.insertInlineChild key child (pos ++ [index]))
        simpa only [List.foldl_cons, inlineChildrenAt, textEntries, List.map_append,
          List.append_assoc] using next
  have fragment : ∀ (children : List Node) (index : Nat) (d : DocumentData) log,
      Replays d log → Replays (children.foldl (fun d child =>
          match child with
          | .paragraph inline | .heading _ inline =>
              inline.foldl (fun d c => d.insertInlineChild key c) d
          | _ => d.insertDeltaToTextMap key [⟨child.toString, []⟩]) d)
        (log ++ textEntries key (fragmentDeltaAt base index children)) := by
    intro children
    induction children with
    | nil => intro _ d log replays; simpa [fragmentDeltaAt, textEntries] using replays
    | cons child rest folded =>
        intro index d log replays
        have step : Replays (match child with
            | .paragraph inline | .heading _ inline =>
                inline.foldl (fun d c => d.insertInlineChild key c) d
            | _ => d.insertDeltaToTextMap key [⟨child.toString, []⟩])
            (log ++ textEntries key (match child with
              | .paragraph inline | .heading _ inline => inlineChildrenAt (base ++ [index]) 0 inline
              | _ => [(⟨child.toString, []⟩, base ++ [index])])) := by
          split
          · exact inline _ _ 0 d log replays
          · exact inline _ _ 0 d log replays
          · exact replays.insertDeltaToTextMap key [(⟨child.toString, []⟩, base ++ [index])]
        have next := folded (index + 1) _ _ step
        simpa only [List.foldl_cons, fragmentDeltaAt, textEntries, List.map_append,
          List.append_assoc] using next
  unfold DocumentData.insertMarkdownAsInlineDelta markdownDeltaAt
  dsimp only
  split
  · simpa [textEntries] using replays
  · cases toMdast (trim markdown) with
    | none => exact replays.insertDeltaToTextMap key [(⟨trim markdown, []⟩, base)]
    | some children => exact fragment children 0 d log replays

end Replays

theorem idOrGenerate_document (ids : Nat → String) (blockId : Option String) (s : ImportState) :
    (idOrGenerate ids blockId s).2.document = s.document := by
  cases blockId <;> rfl

/-- A traced state tracks a walker state: it is that state, and its log
replays that state's document. -/
def Traced.Tracks (t : Traced) (s : ImportState) : Prop :=
  t.state = s ∧ Replays s.document t.log

namespace Traced.Tracks

theorem ok {t : Traced} (replays : Replays t.state.document t.log) :
    Simulates Traced.Tracks (.ok t : Except Fault Traced) (.ok t.state) :=
  ⟨rfl, replays⟩

theorem bind {β γ : Type} {R : β → γ → Prop} {x : Except Fault Traced}
    {x' : Except Fault ImportState} {k : Traced → Except Fault β}
    {k' : ImportState → Except Fault γ}
    (first : Simulates Traced.Tracks x x')
    (rest : ∀ t : Traced, Replays t.state.document t.log → Simulates R (k t) (k' t.state)) :
    Simulates R (x >>= k) (x' >>= k') :=
  Simulates.bind first fun t _ ⟨same, replays⟩ => by
    subst same
    exact rest t replays

end Traced.Tracks

section Walk

variable (toMdast : String → Option (List Node)) (ids : Nat → String)

theorem processBlockContentTraced_succ (fuel : Nat) (t : Traced) (node : Node) (id : String)
    (pos : List Nat) (listType : Option Node.ListType) (startNumber : Option Nat) :
    processBlockContentTraced toMdast ids (fuel + 1) t node id pos listType startNumber =
      match blockContent node with
      | .children children =>
          processMdastNodeChildrenTraced toMdast ids fuel t (some id) .none children pos 0 none
            startNumber
      | .headed head rest => do
          let t ← match head with
            | some para =>
                processMdastNodeChildrenTraced toMdast ids fuel (t.note [.visit (pos ++ [0])])
                  (some id) .none para (pos ++ [0]) 0 none startNumber
            | none => .ok t
          processMdastNodeChildrenTraced toMdast ids fuel t (some id) .none rest pos 1 listType
            startNumber
      | .done => .ok t
      | .text value =>
          .ok ((t.edit (·.insertDeltaToTextMap id [⟨value, []⟩])).note
            [.text id ⟨value, []⟩ pos])
      | .rows align rows => processTableRowsTraced toMdast ids fuel t id align 0 rows pos
      | .unreachable => .error imageUnreachable := by
  cases node
  case blockquote children | listItem _ children =>
    cases children with
    | nil => rfl
    | cons first rest => cases first <;> rfl
  all_goals rfl

/-- The children of the cell of column `colIndex` of a body row, which the
columns rewrite walks when the row is a `TableRow` and that cell a
`TableCell`. -/
def columnCell (colIndex : Nat) : Node → Option (List Node)
  | .tableRow cells =>
      match cells[colIndex]? with
      | some (.tableCell children) => some children
      | _ => none
  | _ => none

theorem processNotionColumnRows_succ (fuel : Nat) (s : ImportState) (columnId : String)
    (colIndex : Nat) (row : Node) (rows : List Node) :
    processNotionColumnRows toMdast ids (fuel + 1) s columnId colIndex (row :: rows) = (do
      let s ← match columnCell colIndex row with
        | some children =>
            if isTableCellEmpty children then .ok s
            else
              let (paragraphBlockId, s) := createParagraphBlock ids s columnId
              processMdastNodeChildren toMdast ids fuel s (some paragraphBlockId) .none children
                none none
        | none => .ok s
      processNotionColumnRows toMdast ids fuel s columnId colIndex rows) := by
  cases row
  case tableRow cells =>
    simp only [processNotionColumnRows, columnCell]
    cases cells[colIndex]? with
    | none => rfl
    | some cell => cases cell <;> rfl
  all_goals rfl

theorem processTableRowsTraced_succ (fuel : Nat) (t : Traced) (tableId : String)
    (align : List AlignKind) (rowIndex : Nat) (row : Node) (rows : List Node) (pos : List Nat) :
    processTableRowsTraced toMdast ids (fuel + 1) t tableId align rowIndex (row :: rows) pos = (do
      let t ← match tableRowOf row with
        | some cells =>
            processTableRowTraced toMdast ids fuel t cells rowIndex tableId align (pos ++ [rowIndex])
        | none => .ok t
      processTableRowsTraced toMdast ids fuel t tableId align (rowIndex + 1) rows pos) := by
  cases row <;> rfl

theorem processTableCellsTraced_succ (fuel : Nat) (t : Traced) (cell : Node) (cells : List Node)
    (rowId : String) (rowIndex colIndex : Nat) (align : List AlignKind) (pos : List Nat) :
    processTableCellsTraced toMdast ids (fuel + 1) t (cell :: cells) rowId rowIndex colIndex align
        pos = (do
      let t ← match tableCellOf cell with
        | some children =>
            let (cellId, t) := (t.note [.visit (pos ++ [colIndex])]).draw ids
            let t := (t.edit (·.registerBlock cellId
              (createSimpleTableCellBlock cellId rowId rowIndex colIndex align) (some rowId))).note
                [.block cellId (some rowId) (pos ++ [colIndex])]
            let (paragraphBlockId, s) := createParagraphBlock ids t.state cellId
            let t := { t with state := s }.note
              [.block paragraphBlockId (some cellId) (pos ++ [colIndex])]
            processMdastNodeChildrenTraced toMdast ids fuel t (some paragraphBlockId) .none children
              (pos ++ [colIndex]) 0 none none
        | none => .ok t
      processTableCellsTraced toMdast ids fuel t cells rowId rowIndex (colIndex + 1) align pos) := by
  cases cell <;> rfl

theorem processNotionColumnRowsTraced_succ (fuel : Nat) (t : Traced) (columnId : String)
    (colIndex : Nat) (row : Node) (rows : List Node) (pos : List Nat) (rowIndex : Nat) :
    processNotionColumnRowsTraced toMdast ids (fuel + 1) t columnId colIndex (row :: rows) pos
        rowIndex = (do
      let t ← match columnCell colIndex row with
        | some children =>
            let t := t.note [.visit (pos ++ [rowIndex, colIndex])]
            if isTableCellEmpty children then .ok t
            else
              let (paragraphBlockId, s) := createParagraphBlock ids t.state columnId
              let t := { t with state := s }.note
                [.block paragraphBlockId (some columnId) (pos ++ [rowIndex, colIndex])]
              processMdastNodeChildrenTraced toMdast ids fuel t (some paragraphBlockId) .none
                children (pos ++ [rowIndex, colIndex]) 0 none none
        | none => .ok t
      processNotionColumnRowsTraced toMdast ids fuel t columnId colIndex rows pos
        (rowIndex + 1)) := by
  cases row <;> simp only [processNotionColumnRowsTraced, columnCell]
  rename_i cells
  cases cells[colIndex]? with
  | none => rfl
  | some cell => cases cell <;> rfl

/-- `processMdastNodeTraced` against `processMdastNode`. -/
def NodeTracks (fuel : Nat) : Prop :=
  ∀ t node pos parentId listType startNumber blockId, Replays t.state.document t.log →
    Simulates Traced.Tracks
      (processMdastNodeTraced toMdast ids fuel t node pos parentId blockId listType startNumber)
      (processMdastNode toMdast ids fuel t.state node parentId blockId listType startNumber)

def ContentTracks (fuel : Nat) : Prop :=
  ∀ t node id pos listType startNumber, Replays t.state.document t.log →
    Simulates Traced.Tracks
      (processBlockContentTraced toMdast ids fuel t node id pos listType startNumber)
      (processBlockContent toMdast ids fuel t.state node id listType startNumber)

def ChildrenTracks (fuel : Nat) : Prop :=
  ∀ t parentId pending children base index listType startNumber,
    Replays t.state.document t.log →
    Simulates Traced.Tracks
      (processMdastNodeChildrenTraced toMdast ids fuel t parentId pending children base index
        listType startNumber)
      (processMdastNodeChildren toMdast ids fuel t.state parentId pending children listType
        startNumber)

def ToggleBodyTracks (fuel : Nat) : Prop :=
  ∀ t toggleId body base, Replays t.state.document t.log →
    Simulates Traced.Tracks
      (processToggleBodyTraced toMdast ids fuel t toggleId body base)
      (processToggleBody toMdast ids fuel t.state toggleId body)

def RowsTracks (fuel : Nat) : Prop :=
  ∀ t tableId align rowIndex rows pos, Replays t.state.document t.log →
    Simulates Traced.Tracks
      (processTableRowsTraced toMdast ids fuel t tableId align rowIndex rows pos)
      (processTableRows toMdast ids fuel t.state tableId align rowIndex rows)

def RowTracks (fuel : Nat) : Prop :=
  ∀ t cells rowIndex tableId align pos, Replays t.state.document t.log →
    Simulates Traced.Tracks
      (processTableRowTraced toMdast ids fuel t cells rowIndex tableId align pos)
      (processTableRow toMdast ids fuel t.state cells rowIndex tableId align)

def CellsTracks (fuel : Nat) : Prop :=
  ∀ t cells rowId rowIndex colIndex align pos, Replays t.state.document t.log →
    Simulates Traced.Tracks
      (processTableCellsTraced toMdast ids fuel t cells rowId rowIndex colIndex align pos)
      (processTableCells toMdast ids fuel t.state cells rowId rowIndex colIndex align)

def ColumnsTracks (fuel : Nat) : Prop :=
  ∀ t columnsId bodyRows colIndices pos, Replays t.state.document t.log →
    Simulates Traced.Tracks
      (processNotionColumnsTraced toMdast ids fuel t columnsId bodyRows colIndices pos)
      (processNotionColumns toMdast ids fuel t.state columnsId bodyRows colIndices)

def ColumnRowsTracks (fuel : Nat) : Prop :=
  ∀ t columnId colIndex rows pos rowIndex, Replays t.state.document t.log →
    Simulates Traced.Tracks
      (processNotionColumnRowsTraced toMdast ids fuel t columnId colIndex rows pos rowIndex)
      (processNotionColumnRows toMdast ids fuel t.state columnId colIndex rows)

section Steps

variable {toMdast ids} {fuel : Nat}

theorem nodeTracks_succ (children : ChildrenTracks toMdast ids fuel)
    (content : ContentTracks toMdast ids fuel) (columns : ColumnsTracks toMdast ids fuel) :
    NodeTracks toMdast ids (fuel + 1) := by
  intro t n pos parentId listType startNumber blockId replays
  rw [processMdastNodeTraced.eq_2, processMdastNode.eq_2]
  have visited := replays.visit pos
  by_cases inline : n.isInlineNode
  · simp only [inline, ↓reduceIte]
    exact ⟨rfl, visited.processInlineMdastNode n parentId pos⟩
  by_cases closing : isClosingSentinel n
  · simp only [inline, closing, ↓reduceIte]
    exact ⟨rfl, visited⟩
  simp only [inline, closing, Bool.false_eq_true, ↓reduceIte, Traced.note_state]
  cases listed : n.getMdastNodeInfo with
  | some info => exact children _ _ _ _ _ _ _ _ visited
  | none =>
      obtain ⟨url, found⟩ := imageOf_ok n
      simp only [found, bind, Except.bind]
      rcases url with _ | url <;> rcases parentId with _ | parent
      all_goals try exact ⟨rfl, visited.registerBlock (ids t.state.issued)
        (createImageBlock (ids t.state.issued) url parent) (some parent) pos⟩
      all_goals
        rcases generated : idOrGenerate ids blockId t.state with ⟨id, s⟩
        have sameDocument : s.document = t.state.document := by
          rw [← idOrGenerate_document ids blockId t.state, generated]
        rw [← sameDocument] at visited
        simp only
        cases notionColumnsOf n with
        | some info =>
            refine columns _ _ _ _ _ ?_
            simp only [Traced.note_state, Traced.note_log, Traced.edit_state,
              Traced.edit_log, ImportState.edit_document]
            exact visited.registerBlock _ _ _ pos
        | none =>
            refine content _ _ _ _ _ _ ?_
            simp only [Traced.note_state, Traced.note_log, Traced.edit_state,
              Traced.edit_log, ImportState.edit_document]
            exact visited.registerBlock _ _ _ pos

theorem contentTracks_succ (children : ChildrenTracks toMdast ids fuel)
    (rows : RowsTracks toMdast ids fuel) : ContentTracks toMdast ids (fuel + 1) := by
  intro t n id pos listType startNumber replays
  rw [processBlockContentTraced_succ, processBlockContent_succ]
  cases blockContent n with
  | children items => exact children _ _ _ _ _ _ _ _ replays
  | headed head rest =>
      cases head with
      | some para =>
          exact Traced.Tracks.bind (children _ _ _ _ _ _ _ _ (replays.visit _))
            fun _ walked => children _ _ _ _ _ _ _ _ walked
      | none =>
          exact Traced.Tracks.bind (Traced.Tracks.ok replays)
            fun _ walked => children _ _ _ _ _ _ _ _ walked
  | done => exact ⟨rfl, replays⟩
  | text value => exact ⟨rfl, replays.insertDeltaToTextMap id [(⟨value, []⟩, pos)]⟩
  | rows align tableRows => exact rows _ _ _ _ _ _ replays
  | unreachable => rfl

theorem childrenTracks_succ (node : NodeTracks toMdast ids fuel)
    (children : ChildrenTracks toMdast ids fuel) (body : ToggleBodyTracks toMdast ids fuel) :
    ChildrenTracks toMdast ids (fuel + 1) := by
  intro t parentId pending siblings base index listType startNumber replays
  cases siblings with
  | nil => cases pending <;> exact ⟨rfl, replays⟩
  | cons n rest =>
      have visited := replays.visit (base ++ [index])
      cases pending with
      | none =>
          simp only [processMdastNodeChildrenTraced, processMdastNodeChildren]
          cases classifySibling n with
          | closing => exact children _ _ _ _ _ _ _ _ visited
          | aside callout =>
              simp only [Traced.draw, generateId, Traced.note_state]
              exact children _ _ _ _ _ _ _ _
                ((visited.attachBlock _ _ _ _).insertMarkdownAsInlineDelta toMdast _ _ _)
          | details value =>
              obtain ⟨parsed, found⟩ := parseDetailsHtml_ok value
              simp only [Traced.draw, generateId, Traced.note_state, found, bind, Except.bind,
                pure, Except.pure]
              have opened := visited.attachBlock (ids t.state.issued)
                (containerBlock .toggleList (ids t.state.issued) HashMap.empty
                  (parentId.getD "")) parentId (base ++ [index])
              cases parsed with
              | some details =>
                  exact Traced.Tracks.bind
                    (body _ _ _ _ (opened.insertMarkdownAsInlineDelta toMdast _ _ _))
                    fun _ walked => children _ _ _ _ _ _ _ _ walked
              | none => exact children _ _ _ _ _ _ _ _ opened
          | other =>
              exact Traced.Tracks.bind (node _ _ _ _ _ _ _ replays)
                fun _ walked => children _ _ _ _ _ _ _ _ walked
      | callout calloutId =>
          simp only [processMdastNodeChildrenTraced, processMdastNodeChildren]
          by_cases closed : isHtmlTag "</aside>" n
          · simp only [closed, ↓reduceIte]
            exact children _ _ _ _ _ _ _ _ visited
          · simp only [closed, Bool.false_eq_true, ↓reduceIte]
            exact Traced.Tracks.bind (node _ _ _ _ _ _ _ replays)
              fun _ walked => children _ _ _ _ _ _ _ _ walked
      | toggle toggleId summaryWritten =>
          simp only [processMdastNodeChildrenTraced, processMdastNodeChildren]
          cases classifyToggleSibling summaryWritten n with
          | close => exact children _ _ _ _ _ _ _ _ visited
          | summary value =>
              obtain ⟨extracted, found⟩ := extractTagContent_ok value "summary"
              simp only [found, bind, Except.bind]
              cases extracted with
              | some pair =>
                  exact Traced.Tracks.bind
                    (body _ _ _ _ (visited.insertMarkdownAsInlineDelta toMdast _ _ _))
                    fun _ walked => children _ _ _ _ _ _ _ _ walked
              | none => exact children _ _ _ _ _ _ _ _ visited
          | other =>
              exact Traced.Tracks.bind (node _ _ _ _ _ _ _ replays)
                fun _ walked => children _ _ _ _ _ _ _ _ walked

theorem toggleBodyTracks_succ (children : ChildrenTracks toMdast ids fuel) :
    ToggleBodyTracks toMdast ids (fuel + 1) := by
  intro t toggleId text base replays
  simp only [processToggleBodyTraced, processToggleBody]
  by_cases blank : (trim text).isEmpty
  · simp only [blank, ↓reduceIte]
    exact ⟨rfl, replays⟩
  simp only [blank, Bool.false_eq_true, ↓reduceIte]
  cases toMdast text with
  | some items => exact children _ _ _ _ _ _ _ _ replays
  | none => exact ⟨rfl, replays⟩

theorem rowsTracks_succ (row : RowTracks toMdast ids fuel) (rows : RowsTracks toMdast ids fuel) :
    RowsTracks toMdast ids (fuel + 1) := by
  intro t tableId align rowIndex tableRows pos replays
  cases tableRows with
  | nil => exact ⟨rfl, replays⟩
  | cons first rest =>
      rw [processTableRowsTraced_succ, processTableRows_succ]
      cases tableRowOf first with
      | some cells =>
          exact Traced.Tracks.bind (row _ _ _ _ _ _ replays)
            fun _ walked => rows _ _ _ _ _ _ walked
      | none =>
          exact Traced.Tracks.bind (Traced.Tracks.ok replays)
            fun _ walked => rows _ _ _ _ _ _ walked

theorem rowTracks_succ (cells : CellsTracks toMdast ids fuel) :
    RowTracks toMdast ids (fuel + 1) := by
  intro t tableCells rowIndex tableId align pos replays
  simp only [processTableRowTraced, processTableRow, Traced.draw, generateId,
    Traced.note_state]
  refine cells _ _ _ _ _ _ _ ?_
  simp only [Traced.note_state, Traced.note_log, Traced.edit_state, Traced.edit_log,
    ImportState.edit_document]
  exact (replays.visit pos).registerBlock _ _ _ pos

theorem cellsTracks_succ (children : ChildrenTracks toMdast ids fuel)
    (cells : CellsTracks toMdast ids fuel) : CellsTracks toMdast ids (fuel + 1) := by
  intro t rowCells rowId rowIndex colIndex align pos replays
  cases rowCells with
  | nil => exact ⟨rfl, replays⟩
  | cons first rest =>
      rw [processTableCellsTraced_succ, processTableCells_succ]
      cases tableCellOf first with
      | some cellChildren =>
          simp only [Traced.draw, generateId, createParagraphBlock, Traced.note_state,
            Traced.edit_state, ImportState.edit_issued]
          refine Traced.Tracks.bind (children _ _ _ _ _ _ _ _ ?_)
            fun _ walked => cells _ _ _ _ _ _ _ walked
          simp only [Traced.note_state, Traced.note_log, Traced.edit_state, Traced.edit_log,
            ImportState.edit_document]
          exact ((replays.visit _).registerBlock _ _ _ _).registerBlock _ _ _ _
      | none =>
          exact Traced.Tracks.bind (Traced.Tracks.ok replays)
            fun _ walked => cells _ _ _ _ _ _ _ walked

theorem columnsTracks_succ (columnRows : ColumnRowsTracks toMdast ids fuel)
    (columns : ColumnsTracks toMdast ids fuel) : ColumnsTracks toMdast ids (fuel + 1) := by
  intro t columnsId bodyRows colIndices pos replays
  cases colIndices with
  | nil => exact ⟨rfl, replays⟩
  | cons colIndex rest =>
      simp only [processNotionColumnsTraced, processNotionColumns, Traced.draw, generateId]
      refine Traced.Tracks.bind (columnRows _ _ _ _ _ _ ?_)
        fun _ walked => columns _ _ _ _ _ walked
      simp only [Traced.note_state, Traced.note_log, Traced.edit_state, Traced.edit_log,
        ImportState.edit_document]
      exact replays.registerBlock _ _ _ _

theorem columnRowsTracks_succ (children : ChildrenTracks toMdast ids fuel)
    (columnRows : ColumnRowsTracks toMdast ids fuel) :
    ColumnRowsTracks toMdast ids (fuel + 1) := by
  intro t columnId colIndex bodyRows pos rowIndex replays
  cases bodyRows with
  | nil => exact ⟨rfl, replays⟩
  | cons first rest =>
      rw [processNotionColumnRowsTraced_succ, processNotionColumnRows_succ]
      cases columnCell colIndex first with
      | some cellChildren =>
          have visited := replays.visit (pos ++ [rowIndex, colIndex])
          by_cases empty : isTableCellEmpty cellChildren
          · simp only [empty, ↓reduceIte]
            exact Traced.Tracks.bind (@Traced.Tracks.ok (t.note _) visited)
              fun _ walked => columnRows _ _ _ _ _ _ walked
          · simp only [empty, Bool.false_eq_true, ↓reduceIte, createParagraphBlock,
              generateId, Traced.note_state]
            refine Traced.Tracks.bind (children _ _ _ _ _ _ _ _ ?_)
              fun _ walked => columnRows _ _ _ _ _ _ walked
            simp only [Traced.note_state, Traced.note_log, ImportState.edit_document]
            exact visited.registerBlock _ _ _ _
      | none =>
          exact Traced.Tracks.bind (Traced.Tracks.ok replays)
            fun _ walked => columnRows _ _ _ _ _ _ walked

end Steps

/-- Every call of the traced walk, from a state whose log replays its
document, ends as the walker's call on that state does, in a state that
tracks the walker's. -/
theorem walk_traced (fuel : Nat) :
    NodeTracks toMdast ids fuel ∧ ContentTracks toMdast ids fuel ∧
      ChildrenTracks toMdast ids fuel ∧ ToggleBodyTracks toMdast ids fuel ∧
      RowsTracks toMdast ids fuel ∧ RowTracks toMdast ids fuel ∧
      CellsTracks toMdast ids fuel ∧ ColumnsTracks toMdast ids fuel ∧
      ColumnRowsTracks toMdast ids fuel := by
  induction fuel with
  | zero => refine ⟨?_, ?_, ?_, ?_, ?_, ?_, ?_, ?_, ?_⟩ <;> intro t <;> intros <;> rfl
  | succ fuel inductionHypothesis =>
      obtain ⟨node, content, children, body, rows, row, cells, columns, columnRows⟩ :=
        inductionHypothesis
      exact ⟨nodeTracks_succ children content columns, contentTracks_succ children rows,
        childrenTracks_succ node children body, toggleBodyTracks_succ children,
        rowsTracks_succ row rows, rowTracks_succ cells, cellsTracks_succ children cells,
        columnsTracks_succ columnRows columns, columnRowsTracks_succ children columnRows⟩

end Walk

theorem importMdTraced_tracks (importer : MDImporter) (ids : Nat → String) (fuel : Nat)
    (documentId md : String) :
    Simulates (Simulates fun t d => t.state.document = d ∧ Replays d t.log)
      (importer.importMdTraced ids fuel documentId md)
      (importer.importMd ids fuel documentId md) := by
  unfold MDImporter.importMdTraced MDImporter.importMd
  cases importer.toMdast md with
  | none => rfl
  | some children =>
      exact Traced.Tracks.bind ((walk_traced importer.toMdast ids fuel).1
        ⟨⟨.initial documentId, 0⟩, []⟩ (.root children) [] none none none (some documentId)
        (Replays.initial documentId))
        fun _ replays => ⟨rfl, replays⟩

end MdImporter
