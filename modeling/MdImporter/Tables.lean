import MdImporter.Order
import MdImporter.Termination

/-!
# Notion column tables in the document

A table that `parse_notion_columns_table` accepts is not imported as a
table: `process_notion_columns` adds one `simple_columns` block under the
parent, one `simple_column` per header cell, and under each column one
paragraph per non-empty cell of that column, filled by the walk of the cell.

The walk of a cell may register blocks of its own, so the layout is stated
against the final document through a frame: a key that is neither an owner of
the walk nor an id drawn during it keeps its children list and its delta. The
frame is read off the traced walk, started from a log that replays the
document it starts from. With a parser that keeps the bound of `Termination`,
the walk of the table returns from some fuel on, and what it returns has the
layout.
-/

namespace MdImporter

set_option autoImplicit false

namespace DocumentData

/-- The children list of `key`, empty when the children map has none. -/
def childrenOf (d : DocumentData) (key : String) : List String :=
  (d.meta.childrenMap.get? key).getD []

/-- The delta of `key`, empty when the text map has none. -/
def deltaOf (d : DocumentData) (key : String) : Delta :=
  (d.meta.textMap.get? key).getD []

/-- A log that replays `d`: its children lists and deltas, entry by entry, at
the root position. -/
def replayLog (d : DocumentData) : List Entry :=
  d.meta.childrenMap.entries.flatMap (fun entry => entry.2.map (.block · (some entry.1) [])) ++
    d.meta.textMap.entries.flatMap fun entry => entry.2.map (.text entry.1 · [])

end DocumentData

theorem lookupEntry_eq_none {α : Type} {entries : List (String × α)} {key : String}
    (missing : key ∉ entries.map Prod.fst) : lookupEntry key entries = none := by
  induction entries with
  | nil => rfl
  | cons entry rest inductionHypothesis =>
      simp only [List.map_cons, List.mem_cons, not_or] at missing
      simp [lookupEntry, Ne.symm missing.1, inductionHypothesis missing.2]

theorem filterMap_childOf_replay (q : String) :
    ∀ entries : List (String × List String), (entries.map Prod.fst).Nodup →
      ((entries.flatMap fun entry => entry.2.map (Entry.block · (some entry.1) [])).filterMap
        (Entry.childOf q)).map Prod.fst = (lookupEntry q entries).getD []
  | [], _ => rfl
  | (key, children) :: rest, nodup => by
      rw [List.map_cons, List.nodup_cons] at nodup
      rw [List.flatMap_cons, List.filterMap_append, List.map_append,
        filterMap_childOf_replay q rest nodup.2, List.filterMap_map]
      by_cases same : key = q
      · subst same
        simp [Function.comp_def, Entry.childOf_block, lookupEntry, lookupEntry_eq_none nodup.1,
          List.map_filterMap]
      · simp [Function.comp_def, Entry.childOf_block, lookupEntry, same, Ne.symm same]

theorem filterMap_textOf_replay (q : String) :
    ∀ entries : List (String × Delta), (entries.map Prod.fst).Nodup →
      ((entries.flatMap fun entry => entry.2.map (Entry.text entry.1 · [])).filterMap
        (Entry.textOf q)).map Prod.fst = (lookupEntry q entries).getD []
  | [], _ => rfl
  | (key, delta) :: rest, nodup => by
      rw [List.map_cons, List.nodup_cons] at nodup
      rw [List.flatMap_cons, List.filterMap_append, List.map_append,
        filterMap_textOf_replay q rest nodup.2, List.filterMap_map]
      by_cases same : key = q
      · subst same
        simp [Function.comp_def, Entry.textOf, lookupEntry, lookupEntry_eq_none nodup.1,
          List.map_filterMap]
      · simp [Function.comp_def, Entry.textOf, lookupEntry, same, Ne.symm same]

theorem Replays.replayLog (d : DocumentData) : Replays d d.replayLog where
  children q := by
    have noText : (d.meta.textMap.entries.flatMap fun entry =>
        entry.2.map (Entry.text entry.1 · [])).filterMap (Entry.childOf q) = [] :=
      List.filterMap_eq_nil_iff.mpr fun _ mem => by
        obtain ⟨_, -, mem⟩ := List.mem_flatMap.mp mem
        obtain ⟨_, -, rfl⟩ := List.mem_map.mp mem
        rfl
    rw [DocumentData.replayLog, List.filterMap_append, noText, List.append_nil,
      filterMap_childOf_replay q _ d.meta.childrenMap.nodup]
    rfl
  text q := by
    have noBlocks : (d.meta.childrenMap.entries.flatMap fun entry =>
        entry.2.map (Entry.block · (some entry.1) [])).filterMap (Entry.textOf q) = [] :=
      List.filterMap_eq_nil_iff.mpr fun _ mem => by
        obtain ⟨_, -, mem⟩ := List.mem_flatMap.mp mem
        obtain ⟨_, -, rfl⟩ := List.mem_map.mp mem
        rfl
    rw [DocumentData.replayLog, List.filterMap_append, noBlocks, List.nil_append,
      filterMap_textOf_replay q _ d.meta.textMap.nodup]
    rfl

namespace DocumentData

@[simp] theorem childrenOf_registerBlock (d : DocumentData) (id : String) (block : Block)
    (parent q : String) :
    (d.registerBlock id block (some parent)).childrenOf q =
      d.childrenOf q ++ if q = parent then [id] else [] := by
  simp only [childrenOf, registerBlock, updateChildrenMap, HashMap.getD_upsert_append]
  simp [ensureChildrenMapEntry, HashMap.getD_upsert_id]

@[simp] theorem deltaOf_registerBlock (d : DocumentData) (id : String) (block : Block)
    (parentId : Option String) (q : String) :
    (d.registerBlock id block parentId).deltaOf q = d.deltaOf q := by
  cases parentId <;> rfl

end DocumentData

@[simp] theorem childrenOf_createParagraphBlock (ids : Nat → String) (s : ImportState)
    (parent q : String) :
    (createParagraphBlock ids s parent).2.document.childrenOf q =
      s.document.childrenOf q ++ if q = parent then [ids s.issued] else [] :=
  DocumentData.childrenOf_registerBlock _ _ _ _ _

theorem blockTy_of_get? {d : DocumentData} {k : String} {block : Block}
    (found : d.blocks.get? k = some block) : (d.blocks.get? k).map Block.ty = some block.ty :=
  Option.map_eq_some'.mpr ⟨block, found, rfl⟩

theorem mem_keys_of_blockTy {d : DocumentData} {k ty : String}
    (typed : (d.blocks.get? k).map Block.ty = some ty) : k ∈ d.blocks.keys :=
  HashMap.mem_keys_of_get? (Option.map_eq_some'.mp typed).choose_spec.1

theorem ne_of_blockTy {d : DocumentData} {k k' ty ty' : String}
    (typed : (d.blocks.get? k).map Block.ty = some ty)
    (typed' : (d.blocks.get? k').map Block.ty = some ty') (differ : ty ≠ ty') : k ≠ k' := by
  rintro rfl
  exact differ (Option.some.inj (typed.symm.trans typed'))

theorem bind_eq_ok {α β : Type} {x : Except Fault α} {k : α → Except Fault β} {b : β}
    (returned : (x >>= k) = .ok b) : ∃ a, x = .ok a ∧ k a = .ok b := by
  cases x with
  | error _ => cases returned
  | ok a => exact ⟨a, rfl, returned⟩

namespace ImportState

variable {ids : Nat → String} {pageId : String} {s s' : ImportState}

theorem Grows.issued_le (wf : s.WellFormed ids pageId) (grows : Grows ids pageId s s') :
    s.issued ≤ s'.issued := by
  have lengths := grows.2.length_le
  have before := congrArg List.length wf.keys_eq
  have after := congrArg List.length grows.1.keys_eq
  simp only [HashMap.keys, List.length_map, List.length_cons, List.length_range] at before after
  omega

theorem Extends.blockTy (grows : s.Extends s') {key ty : String}
    (typed : (s.document.blocks.get? key).map Block.ty = some ty) :
    (s'.document.blocks.get? key).map Block.ty = some ty := by
  obtain ⟨block, found, typedBlock⟩ := Option.map_eq_some'.mp typed
  rw [HashMap.get?_of_prefix grows found]
  exact congrArg some typedBlock

theorem WellFormed.drawn (wf : s.WellFormed ids pageId) {key : String}
    (known : key ∈ s.document.blocks.keys) : key = pageId ∨ ∃ n < s.issued, ids n = key := by
  rw [wf.keys_eq] at known
  simpa [eq_comm] using known

theorem drawn_ne (fresh : FreshIds ids pageId) {key : String} {issued : Nat}
    (drawn : key = pageId ∨ ∃ n < issued, ids n = key) {n : Nat} (later : issued ≤ n) :
    ids n ≠ key := by
  rcases drawn with rfl | ⟨m, before, rfl⟩
  · exact fresh.ne_pageId n
  · exact fun same => absurd (fresh.injective same) (by omega)

theorem WellFormed.childrenMap_get? (wf : s.WellFormed ids pageId) {key ty : String}
    (typed : (s.document.blocks.get? key).map Block.ty = some ty)
    (ordinary : ty ≠ BlockType.callout.toString ∧ ty ≠ BlockType.toggleList.toString) :
    s.document.meta.childrenMap.get? key = some (s.document.childrenOf key) := by
  cases listed : s.document.meta.childrenMap.get? key with
  | some children => rw [DocumentData.childrenOf, listed]; rfl
  | none =>
      obtain ⟨block, found, rfl⟩ := Option.map_eq_some'.mp typed
      have fragment := wf.unlisted_fragment key block found listed
      simp [Block.isCalloutOrToggle, ordinary.1, ordinary.2] at fragment

theorem WellFormed.unknown (wf : s.WellFormed ids pageId) {key : String}
    (unknown : key ∉ s.document.blocks.keys) :
    s.document.childrenOf key = [] ∧ s.document.deltaOf key = [] := by
  constructor
  · rw [DocumentData.childrenOf, HashMap.get?_eq_none_of_not_mem fun listed =>
      unknown (wf.childrenMap_keys key listed)]
    rfl
  · cases found : s.document.meta.textMap.get? key with
    | none => rw [DocumentData.deltaOf, found]; rfl
    | some delta =>
        obtain ⟨block, known, -⟩ := wf.text_owner key (HashMap.mem_keys_of_get? found)
        exact absurd (HashMap.mem_keys_of_get? known) unknown

theorem WellFormed.childrenMap_get?_of_same (wf' : s'.WellFormed ids pageId)
    (grows : s.Extends s') {key ty : String} {list : List String}
    (typed : (s.document.blocks.get? key).map Block.ty = some ty)
    (ordinary : ty ≠ BlockType.callout.toString ∧ ty ≠ BlockType.toggleList.toString)
    (listed : s.document.meta.childrenMap.get? key = some list)
    (same : s'.document.childrenOf key = s.document.childrenOf key) :
    s'.document.meta.childrenMap.get? key = some list := by
  rw [wf'.childrenMap_get? (grows.blockTy typed) ordinary, same, DocumentData.childrenOf, listed]
  rfl

theorem WellFormed.createParagraphBlock_typed (wf : s.WellFormed ids pageId)
    (fresh : FreshIds ids pageId) {parent : String} (known : parent ∈ s.document.blocks.keys) :
    ((MdImporter.createParagraphBlock ids s parent).2.document.blocks.get? (ids s.issued)).map
      Block.ty = some "paragraph" :=
  (congrArg (Option.map Block.ty) (wf.register fresh known
    (createBlock (ids s.issued) (.paragraph []) (some parent) none none) rfl rfl rfl).2).trans rfl

end ImportState

section Frame

variable {ids : Nat → String} {pageId : String}

theorem Appends.unowned {S : Scope} {t t' : Traced} {added : List Entry}
    (appends : Appends ids S t t' added) {k : String} (notOwner : ¬ S.owners k)
    (notDrawn : ¬ DrawnBetween ids t t' k) :
    added.filterMap (Entry.childOf k) = [] ∧ added.filterMap (Entry.textOf k) = [] := by
  have unowned : ∀ e ∈ added, e.owner ≠ some k := fun e mem owner =>
    (appends.owned e mem k owner).2.elim notOwner notDrawn
  refine ⟨List.filterMap_eq_nil_iff.mpr fun e mem => ?_,
    List.filterMap_eq_nil_iff.mpr fun e mem => ?_⟩
  · cases made : e.childOf k with
    | none => rfl
    | some _ => exact absurd (Entry.childOf_eq_some made).1 (unowned e mem)
  · cases written : e.textOf k with
    | none => rfl
    | some _ => exact absurd (Entry.textOf_eq_some written).1 (unowned e mem)

/-- Every block of `s` but `owner` keeps its list and delta in `s'`. -/
def KeepsBut (owner : String) (s s' : ImportState) : Prop :=
  ∀ k ∈ s.document.blocks.keys, k ≠ owner →
    s'.document.childrenOf k = s.document.childrenOf k ∧
      s'.document.deltaOf k = s.document.deltaOf k

variable {toMdast : String → Option (List Node)} {fuel : Nat} {s s' : ImportState}

/-- A call of the walker from a well-formed `s` to `s'`, run by the traced walk
from `s` and its replay log within a scope of one owner, keeps every block of
`s` but the owner: a block of `s` is not one the call made. -/
theorem KeepsBut.of_traced (fresh : FreshIds ids pageId) (wf : s.WellFormed ids pageId)
    {S : Scope} {owner : String} (owners : ∀ k, S.owners k → k = owner)
    {traced : Except Fault Traced} (tracks : Simulates Traced.Tracks traced (.ok s'))
    (appends : Returns (fun t' => ∃ added, Appends ids S ⟨s, s.document.replayLog⟩ t' added)
      traced) :
    KeepsBut owner s s' := by
  intro k old other
  cases traced with
  | error _ => exact False.elim tracks
  | ok t' =>
      obtain ⟨rfl, replays⟩ := tracks
      obtain ⟨added, appends⟩ := appends t' rfl
      obtain ⟨noChildren, noText⟩ := appends.unowned (fun isOwner => other (owners k isOwner))
        fun ⟨_, after, _, same⟩ => ImportState.drawn_ne fresh (wf.drawn old) after same
      have start := Replays.replayLog s.document
      constructor
      · rw [DocumentData.childrenOf, DocumentData.childrenOf, replays.children, start.children,
          appends.log_eq, List.filterMap_append, noChildren, List.append_nil]
      · rw [DocumentData.deltaOf, DocumentData.deltaOf, replays.text, start.text,
          appends.log_eq, List.filterMap_append, noText, List.append_nil]

theorem processMdastNodeChildren_keeps (fresh : FreshIds ids pageId) (wf : s.WellFormed ids pageId)
    {q : String} (known : q ∈ s.document.blocks.keys) {children : List Node}
    {listType : Option Node.ListType} {startNumber : Option Nat}
    (walked : processMdastNodeChildren toMdast ids fuel s (some q) .none children listType
      startNumber = .ok s') :
    KeepsBut q s s' :=
  .of_traced fresh wf (fun _ => id) (walked ▸ (walk_traced toMdast ids fuel).2.2.1 ⟨s, _⟩
    (some q) .none children [] 0 listType startNumber (Replays.replayLog _))
    ((walk_appends toMdast ids fresh fuel).2.2.1.under _ q children [] 0 listType startNumber
      (wf.drawn known))

theorem processNotionColumnRows_keeps (fresh : FreshIds ids pageId) (wf : s.WellFormed ids pageId)
    {columnId : String} (known : columnId ∈ s.document.blocks.keys) {colIndex : Nat}
    {rows : List Node}
    (walked : processNotionColumnRows toMdast ids fuel s columnId colIndex rows = .ok s') :
    KeepsBut columnId s s' :=
  .of_traced fresh wf (fun _ => id) (walked ▸ (walk_traced toMdast ids fuel).2.2.2.2.2.2.2.2
    ⟨s, _⟩ columnId colIndex rows [] 1 (Replays.replayLog _))
    ((walk_appends toMdast ids fresh fuel).2.2.2.2.2.2.2.2 _ columnId colIndex rows [] 1
      (wf.drawn known))

theorem processNotionColumns_keeps (fresh : FreshIds ids pageId) (wf : s.WellFormed ids pageId)
    {columnsId : String} (known : columnsId ∈ s.document.blocks.keys) {bodyRows : List Node}
    {colIndices : List Nat} (sorted : colIndices.Pairwise (· < ·))
    (walked : processNotionColumns toMdast ids fuel s columnsId bodyRows colIndices = .ok s') :
    KeepsBut columnsId s s' :=
  .of_traced fresh wf (fun _ => id) (walked ▸ (walk_traced toMdast ids fuel).2.2.2.2.2.2.2.1
    ⟨s, _⟩ columnsId bodyRows colIndices [] (Replays.replayLog _))
    ((walk_appends toMdast ids fresh fuel).2.2.2.2.2.2.2.1 _ columnsId bodyRows colIndices []
      (wf.drawn known) sorted)

end Frame

/-- The cells of column `colIndex` that the columns rewrite fills, in row
order: each body row's cell of that column, when the row is a `TableRow`, the
cell a `TableCell` and not empty under `is_table_cell_empty`. -/
def filledCells (colIndex : Nat) (bodyRows : List Node) : List (List Node) :=
  bodyRows.filterMap fun row =>
    (columnCell colIndex row).filter fun children => !isTableCellEmpty children

section Layout

variable (toMdast : String → Option (List Node)) (ids : Nat → String)

/-- `paragraph` holds exactly what the walk of `children` put into it: it was
made by `create_paragraph_block` under `parent` with no list or delta of its
own, `children` were walked under it, and its list and delta in `d` are the
ones that walk left. -/
def HoldsWalk (d : DocumentData) (parent paragraph : String) (children : List Node) : Prop :=
  ∃ fuel s s', (createParagraphBlock ids s parent).1 = paragraph ∧
    s.document.childrenOf paragraph = [] ∧ s.document.deltaOf paragraph = [] ∧
    processMdastNodeChildren toMdast ids fuel (createParagraphBlock ids s parent).2
      (some paragraph) .none children none none = .ok s' ∧
    d.childrenOf paragraph = s'.document.childrenOf paragraph ∧
    d.deltaOf paragraph = s'.document.deltaOf paragraph

/-- A paragraph block of `parent` in `d` that holds the walk of a cell's
children. -/
def CellParagraph (d : DocumentData) (parent paragraph : String) (cell : List Node) : Prop :=
  (d.blocks.get? paragraph).map Block.ty = some "paragraph" ∧
    HoldsWalk toMdast ids d parent paragraph cell

/-- What the columns rewrite of a table with the columns layout `info`, walked
under `p`, builds from `d` in `d'`. `p`'s list gains one block, a
`SimpleColumns` block. Its list is one `SimpleColumn` block per column, in
column order. The list of column `c` is one `Paragraph` block per body row
whose cell of column `c` is not empty, in row order, and each of them holds
exactly what the walk of that cell's children put into it. The blocks under
`p`, under the columns block and under its columns are these and no table, row
or cell block. -/
def ColumnsLayout (d d' : DocumentData) (p : String) (info : NotionColumnsTableInfo) : Prop :=
  ∃ columnsId columns, d'.childrenOf p = d.childrenOf p ++ [columnsId] ∧
    (d'.blocks.get? columnsId).map Block.ty = some "simple_columns" ∧
    d'.meta.childrenMap.get? columnsId = some columns ∧
    List.Forall₂ (fun column colIndex =>
        (d'.blocks.get? column).map Block.ty = some "simple_column" ∧
        ∃ paragraphs, d'.meta.childrenMap.get? column = some paragraphs ∧
          List.Forall₂ (CellParagraph toMdast ids d' column) paragraphs
            (filledCells colIndex info.bodyRows))
      columns (List.range info.colCount)

end Layout

section Columns

variable {toMdast : String → Option (List Node)} {ids : Nat → String} {pageId : String}

theorem CellParagraph.transport {s s' : ImportState} (grows : s.Extends s')
    {owner ownerTy : String}
    (ownerTyped : (s.document.blocks.get? owner).map Block.ty = some ownerTy)
    (other : ownerTy ≠ "paragraph") (keeps : KeepsBut owner s s') {parent paragraph : String}
    {cell : List Node} (holds : CellParagraph toMdast ids s.document parent paragraph cell) :
    CellParagraph toMdast ids s'.document parent paragraph cell := by
  obtain ⟨typed, fuel, s0, s1, made, noList, noDelta, walked, list, delta⟩ := holds
  have same := keeps paragraph (mem_keys_of_blockTy typed)
    (ne_of_blockTy typed ownerTyped (Ne.symm other))
  exact ⟨grows.blockTy typed, fuel, s0, s1, made, noList, noDelta, walked, same.1.trans list,
    same.2.trans delta⟩

theorem processNotionColumnRows_fills (fresh : FreshIds ids pageId) {columnId : String}
    {colIndex : Nat} :
    ∀ (rows : List Node) {fuel : Nat} {s s' : ImportState}, s.WellFormed ids pageId →
      (s.document.blocks.get? columnId).map Block.ty = some "simple_column" →
      processNotionColumnRows toMdast ids fuel s columnId colIndex rows = .ok s' →
      ∃ paragraphs, s'.document.childrenOf columnId =
          s.document.childrenOf columnId ++ paragraphs ∧
        List.Forall₂ (CellParagraph toMdast ids s'.document columnId) paragraphs
          (filledCells colIndex rows)
  | [], fuel, s, s', _, _, walked => by
      cases fuel with
      | zero => cases walked
      | succ fuel =>
          simp only [processNotionColumnRows] at walked
          cases walked
          exact ⟨[], by simp, .nil⟩
  | row :: rows, fuel, s, s', wf, columnTyped, walked => by
      cases fuel with
      | zero => cases walked
      | succ fuel =>
          rw [processNotionColumnRows_succ] at walked
          cases cell : columnCell colIndex row with
          | none =>
              simp only [cell] at walked
              rw [show filledCells colIndex (row :: rows) = filledCells colIndex rows by
                simp [filledCells, cell]]
              exact processNotionColumnRows_fills fresh rows wf columnTyped walked
          | some children =>
              by_cases empty : isTableCellEmpty children
              · simp only [cell, empty] at walked
                rw [show filledCells colIndex (row :: rows) = filledCells colIndex rows by
                  simp [filledCells, cell, empty]]
                exact processNotionColumnRows_fills fresh rows wf columnTyped walked
              · simp only [cell, empty] at walked
                rw [show filledCells colIndex (row :: rows) =
                    children :: filledCells colIndex rows by
                  simp [filledCells, cell, Option.filter, empty]]
                obtain ⟨s1, cellWalked, rest⟩ := bind_eq_ok walked
                have known := mem_keys_of_blockTy columnTyped
                have made := wf.createParagraphBlock fresh known
                have typed := wf.createParagraphBlock_typed fresh known
                have cellGrows :
                    ImportState.Grows ids pageId (createParagraphBlock ids s columnId).2 s1 :=
                  (walk_wellFormed toMdast ids pageId fresh fuel).2.2.1 _ _ .none children none none
                    made.1.1 made.2 trivial s1 cellWalked
                have columnTyped1 := (made.1.2.trans cellGrows.2).blockTy columnTyped
                have restGrows : ImportState.Grows ids pageId s1 s' :=
                  (walk_wellFormed toMdast ids pageId fresh fuel).2.2.2.2.2.2.2.2 s1 columnId
                    colIndex rows cellGrows.1 (mem_keys_of_blockTy columnTyped1) s' rest
                obtain ⟨paragraphs, list, cells⟩ :=
                  processNotionColumnRows_fills fresh rows cellGrows.1 columnTyped1 rest
                have blank := wf.unknown (wf.not_mem_keys fresh)
                refine ⟨ids s.issued :: paragraphs, ?_, .cons (CellParagraph.transport restGrows.2
                  columnTyped1 (by decide)
                  (processNotionColumnRows_keeps fresh cellGrows.1
                    (mem_keys_of_blockTy columnTyped1) rest)
                  ⟨cellGrows.2.blockTy typed, fuel, s, s1, rfl, blank.1, blank.2, cellWalked, rfl,
                    rfl⟩) cells⟩
                rw [list, (processMdastNodeChildren_keeps fresh made.1.1 (mem_keys_of_blockTy typed)
                  cellWalked columnId (made.1.mem_keys known)
                  (ne_of_blockTy (made.1.2.blockTy columnTyped) typed (by decide))).1]
                simp

theorem processNotionColumns_fills (fresh : FreshIds ids pageId) {columnsId : String}
    {bodyRows : List Node} :
    ∀ (colIndices : List Nat) {fuel : Nat} {s s' : ImportState}, s.WellFormed ids pageId →
      (s.document.blocks.get? columnsId).map Block.ty = some "simple_columns" →
      colIndices.Pairwise (· < ·) →
      processNotionColumns toMdast ids fuel s columnsId bodyRows colIndices = .ok s' →
      ∃ columns, s'.document.childrenOf columnsId =
          s.document.childrenOf columnsId ++ columns ∧
        List.Forall₂ (fun column colIndex =>
            (s'.document.blocks.get? column).map Block.ty = some "simple_column" ∧
            List.Forall₂ (CellParagraph toMdast ids s'.document column)
              (s'.document.childrenOf column) (filledCells colIndex bodyRows))
          columns colIndices
  | [], fuel, s, s', _, _, _, walked => by
      cases fuel with
      | zero => cases walked
      | succ fuel =>
          simp only [processNotionColumns] at walked
          cases walked
          exact ⟨[], by simp, .nil⟩
  | colIndex :: colIndices, fuel, s, s', wf, columnsTyped, sorted, walked => by
      cases fuel with
      | zero => cases walked
      | succ fuel =>
          simp only [processNotionColumns, generateId] at walked
          obtain ⟨s1, rowsWalked, rest⟩ := bind_eq_ok walked
          obtain ⟨-, sorted⟩ := List.pairwise_cons.mp sorted
          have known := mem_keys_of_blockTy columnsTyped
          have made := wf.register fresh known
            (containerBlock .simpleColumn (ids s.issued) HashMap.empty columnsId) rfl rfl rfl
          have columnTyped : _ = some "simple_column" := blockTy_of_get? made.2
          have rowsGrows := (walk_wellFormed toMdast ids pageId fresh fuel).2.2.2.2.2.2.2.2 _
            (ids s.issued) colIndex bodyRows made.1.1 (mem_keys_of_blockTy columnTyped) s1
            rowsWalked
          have columnsTyped1 := (made.1.2.trans rowsGrows.2).blockTy columnsTyped
          have restGrows := (walk_wellFormed toMdast ids pageId fresh fuel).2.2.2.2.2.2.2.1 s1
            columnsId bodyRows colIndices rowsGrows.1 (mem_keys_of_blockTy columnsTyped1) s' rest
          obtain ⟨paragraphs, list, cells⟩ :=
            processNotionColumnRows_fills fresh bodyRows made.1.1 columnTyped rowsWalked
          obtain ⟨columns, restList, restColumns⟩ :=
            processNotionColumns_fills fresh colIndices rowsGrows.1 columnsTyped1 sorted rest
          have restKeeps := processNotionColumns_keeps fresh rowsGrows.1
            (mem_keys_of_blockTy columnsTyped1) sorted rest
          have columnTyped1 := rowsGrows.2.blockTy columnTyped
          have columnNe : ids s.issued ≠ columnsId :=
            ne_of_blockTy columnTyped (made.1.2.blockTy columnsTyped) (by decide)
          refine ⟨ids s.issued :: columns, ?_, .cons ⟨restGrows.2.blockTy columnTyped1, ?_⟩
            restColumns⟩
          · rw [restList, (processNotionColumnRows_keeps fresh made.1.1
              (mem_keys_of_blockTy columnTyped) rowsWalked columnsId (made.1.mem_keys known)
              (Ne.symm columnNe)).1]
            simp
          · rw [(restKeeps _ (mem_keys_of_blockTy columnTyped1)
              (ne_of_blockTy columnTyped1 columnsTyped1 (by decide))).1, list]
            simpa [(wf.unknown (wf.not_mem_keys fresh)).1, columnNe] using
              cells.imp fun _ _ => CellParagraph.transport restGrows.2 columnsTyped1 (by decide)
                restKeeps

theorem processMdastNode_columnsTable (fuel : Nat) (s : ImportState) {align : List AlignKind}
    {rows : List Node} {info : NotionColumnsTableInfo}
    (accepted : parseNotionColumnsTable rows = some info) (p : String)
    (listType : Option Node.ListType) (startNumber : Option Nat) :
    processMdastNode toMdast ids (fuel + 1) s (.table align rows) (some p) none listType
        startNumber =
      processNotionColumns toMdast ids fuel ({ s with issued := s.issued + 1 }.edit
        (·.registerBlock (ids s.issued) (containerBlock .simpleColumns (ids s.issued)
          HashMap.empty p) (some p))) (ids s.issued) info.bodyRows (List.range info.colCount) := by
  rw [processMdastNode.eq_2]
  simp only [Node.isInlineNode, isClosingSentinel, Node.getMdastNodeInfo, imageOf,
    notionColumnsOf, accepted, idOrGenerate, generateId]
  rfl

theorem processMdastNode_columnsLayout (fresh : FreshIds ids pageId) {fuel : Nat}
    {s s' : ImportState} (wf : s.WellFormed ids pageId) {p : String}
    (parent : p ∈ s.document.blocks.keys) {align : List AlignKind} {rows : List Node}
    {info : NotionColumnsTableInfo} (accepted : parseNotionColumnsTable rows = some info)
    {listType : Option Node.ListType} {startNumber : Option Nat}
    (walked : processMdastNode toMdast ids fuel s (.table align rows) (some p) none listType
      startNumber = .ok s') :
    ColumnsLayout toMdast ids s.document s'.document p info := by
  cases fuel with
  | zero => cases walked
  | succ fuel =>
      rw [processMdastNode_columnsTable fuel s accepted] at walked
      have made := wf.register fresh parent
        (containerBlock .simpleColumns (ids s.issued) HashMap.empty p) rfl rfl rfl
      have columnsTyped : _ = some "simple_columns" := blockTy_of_get? made.2
      have columnsGrows := (walk_wellFormed toMdast ids pageId fresh fuel).2.2.2.2.2.2.2.1 _
        (ids s.issued) info.bodyRows (List.range info.colCount) made.1.1
        (mem_keys_of_blockTy columnsTyped) s' walked
      obtain ⟨columns, list, filled⟩ := processNotionColumns_fills fresh _ made.1.1 columnsTyped
        (List.pairwise_lt_range _) walked
      have parentNe : p ≠ ids s.issued :=
        Ne.symm (ImportState.drawn_ne fresh (wf.drawn parent) le_rfl)
      have typed := columnsGrows.2.blockTy columnsTyped
      refine ⟨ids s.issued, columns, ?_, typed, ?_,
        filled.imp fun column colIndex ⟨typed, cells⟩ =>
          ⟨typed, _, columnsGrows.1.childrenMap_get? typed (by decide), cells⟩⟩
      · rw [(processNotionColumns_keeps fresh made.1.1 (mem_keys_of_blockTy columnsTyped)
          (List.pairwise_lt_range _) walked p (made.1.mem_keys parent) parentNe).1]
        simp
      · rw [columnsGrows.1.childrenMap_get? typed (by decide), list]
        simp [(wf.unknown (wf.not_mem_keys fresh)).1, Ne.symm parentNe]

/-- **The columns rewrite.** With a parser that keeps the bound, a table that
`parse_notion_columns_table` accepts, walked under `p`, returns from some fuel
on and builds its columns layout. -/
theorem processMdastNode_notionColumns (fresh : FreshIds ids pageId)
    (bounded : ∀ text children, toMdast text = some children →
      Node.htmlWithinList text.length children = true)
    {s : ImportState} (wf : s.WellFormed ids pageId) {p : String}
    (parent : p ∈ s.document.blocks.keys) {align : List AlignKind} {rows : List Node}
    {info : NotionColumnsTableInfo} (accepted : parseNotionColumnsTable rows = some info)
    (listType : Option Node.ListType) (startNumber : Option Nat) :
    ∃ bound, ∀ fuel, bound ≤ fuel → ∃ s',
      processMdastNode toMdast ids fuel s (.table align rows) (some p) none listType
          startNumber = .ok s' ∧
        ColumnsLayout toMdast ids s.document s'.document p info :=
  (processMdastNode_returns toMdast ids bounded _).mono fun _ returns =>
    let ⟨s', walked⟩ := returns s p none listType startNumber
    ⟨s', walked, processMdastNode_columnsLayout fresh wf parent accepted walked⟩

theorem processMdastNode_notionColumns_twoColumns :
    (∀ text children, (fun _ => none : String → Option (List Node)) text = some children →
      Node.htmlWithinList text.length children = true) ∧
    ∃ bound, ∀ fuel, bound ≤ fuel → ∃ s',
      processMdastNode (fun _ => none) (fun n => ⟨List.replicate (n + 1) 'b'⟩) fuel
          (pageState "P" []) (.table [] [.tableRow [.tableCell [], .tableCell []],
            .tableRow [.tableCell [.text "a"], .tableCell []]]) (some "P") none none none =
        .ok s' ∧
      ColumnsLayout (fun _ => none) (fun n => ⟨List.replicate (n + 1) 'b'⟩)
        (pageState "P" []).document s'.document "P"
        ⟨2, [.tableRow [.tableCell [.text "a"], .tableCell []]]⟩ :=
  ⟨failingParser_bounded, @processMdastNode_notionColumns (fun _ => none)
    (fun n => ⟨List.replicate (n + 1) 'b'⟩) "P" (freshIds_replicate 1) failingParser_bounded
    (pageState "P" []) (ImportState.pageState_wellFormed _ "P" []) "P" (by decide) []
    [.tableRow [.tableCell [], .tableCell []], .tableRow [.tableCell [.text "a"], .tableCell []]]
    _ rfl none none⟩

end Columns

end MdImporter
