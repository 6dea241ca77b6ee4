import MdImporter.Steps

/-!
# The importer never panics

Three places of the importer can panic: the `unreachable!` arm of an image
node, reached only when the image has no parent; the index
`para.children[0]`; and the slices of `extract_tag_content`. The index is
guarded by the length test and the slices sit at char boundaries
(`imageOf_ok`, `extractTagContent_ok`). Every call the walker makes passes a
parent, and only `import`'s own call, on the root, passes none; so no run
panics, whatever the parser and the id supply.
-/

namespace MdImporter

set_option autoImplicit false

/-- A computation that does not panic: it returns, or runs out of fuel. -/
def NoPanic {α : Type} (result : Except Fault α) : Prop :=
  ∀ message, result ≠ .error (.panic message)

namespace NoPanic

variable {α β : Type}

theorem ok (a : α) : NoPanic (.ok a : Except Fault α) := fun _ returned => by cases returned

theorem outOfFuel : NoPanic (.error .outOfFuel : Except Fault α) := fun _ stopped => by
  cases stopped

theorem bind {x : Except Fault α} {k : α → Except Fault β} (first : NoPanic x)
    (rest : ∀ a, NoPanic (k a)) : NoPanic (x >>= k) := by
  cases x with
  | ok a => exact rest a
  | error e =>
      have stops : (Except.error e >>= k : Except Fault β) = .error e := rfl
      rw [stops]
      intro message failed
      injection failed with same
      exact first message (by rw [same])

end NoPanic

section Walk

variable (toMdast : String → Option (List Node)) (ids : Nat → String)

/-- `processMdastNode` under a parent does not panic. -/
def NodeNoPanic (fuel : Nat) : Prop :=
  ∀ s node parent blockId listType startNumber,
    NoPanic (processMdastNode toMdast ids fuel s node (some parent) blockId listType startNumber)

def ContentNoPanic (fuel : Nat) : Prop :=
  ∀ s node id listType startNumber, blockContent node ≠ .unreachable →
    NoPanic (processBlockContent toMdast ids fuel s node id listType startNumber)

def ChildrenNoPanic (fuel : Nat) : Prop :=
  ∀ s parent pending children listType startNumber,
    NoPanic (processMdastNodeChildren toMdast ids fuel s (some parent) pending children
      listType startNumber)

def ToggleBodyNoPanic (fuel : Nat) : Prop :=
  ∀ s toggleId body, NoPanic (processToggleBody toMdast ids fuel s toggleId body)

def RowsNoPanic (fuel : Nat) : Prop :=
  ∀ s tableId align rowIndex rows,
    NoPanic (processTableRows toMdast ids fuel s tableId align rowIndex rows)

def RowNoPanic (fuel : Nat) : Prop :=
  ∀ s cells rowIndex tableId align,
    NoPanic (processTableRow toMdast ids fuel s cells rowIndex tableId align)

def CellsNoPanic (fuel : Nat) : Prop :=
  ∀ s cells rowId rowIndex colIndex align,
    NoPanic (processTableCells toMdast ids fuel s cells rowId rowIndex colIndex align)

def ColumnsNoPanic (fuel : Nat) : Prop :=
  ∀ s columnsId bodyRows colIndices,
    NoPanic (processNotionColumns toMdast ids fuel s columnsId bodyRows colIndices)

def ColumnRowsNoPanic (fuel : Nat) : Prop :=
  ∀ s columnId colIndex rows,
    NoPanic (processNotionColumnRows toMdast ids fuel s columnId colIndex rows)

section Steps

variable {toMdast ids} {fuel : Nat}

theorem nodeNoPanic_succ (children : ChildrenNoPanic toMdast ids fuel)
    (content : ContentNoPanic toMdast ids fuel) (columns : ColumnsNoPanic toMdast ids fuel) :
    NodeNoPanic toMdast ids (fuel + 1) := by
  intro s n parent blockId listType startNumber
  rw [processMdastNode.eq_2]
  split
  · exact .ok _
  split
  · exact .ok _
  split
  · exact children _ _ _ _ _ _
  obtain ⟨url, found⟩ := imageOf_ok n
  simp only [found, bind, Except.bind]
  split
  · exact .ok _
  rename_i notPromoted
  split
  · exact columns _ _ _ _
  apply content
  intro unreachable
  obtain ⟨image, rfl⟩ := blockContent_eq_unreachable unreachable
  cases found
  exact notPromoted _ _ rfl rfl

theorem contentNoPanic_succ (children : ChildrenNoPanic toMdast ids fuel)
    (rows : RowsNoPanic toMdast ids fuel) : ContentNoPanic toMdast ids (fuel + 1) := by
  intro s n id listType startNumber reachable
  rw [processBlockContent_succ]
  split
  · exact children _ _ _ _ _ _
  · dsimp only
    split
    · exact .bind (children _ _ _ _ _ _) fun _ => children _ _ _ _ _ _
    · exact .bind (.ok _) fun _ => children _ _ _ _ _ _
  · exact .ok _
  · exact .ok _
  · exact rows _ _ _ _ _
  · contradiction

theorem childrenNoPanic_succ (node : NodeNoPanic toMdast ids fuel)
    (children : ChildrenNoPanic toMdast ids fuel) (body : ToggleBodyNoPanic toMdast ids fuel) :
    ChildrenNoPanic toMdast ids (fuel + 1) := by
  intro s parent pending siblings listType startNumber
  cases siblings with
  | nil => cases pending <;> exact .ok _
  | cons n rest =>
      cases pending with
      | none =>
          simp only [processMdastNodeChildren]
          split
          · exact children _ _ _ _ _ _
          · exact children _ _ _ _ _ _
          · obtain ⟨parsed, found⟩ := parseDetailsHtml_ok (by assumption)
            simp only [generateId, found, bind, Except.bind]
            split
            · exact .bind (body _ _ _) fun _ => children _ _ _ _ _ _
            · exact children _ _ _ _ _ _
          · exact .bind (node _ _ _ _ _ _) fun _ => children _ _ _ _ _ _
      | callout calloutId =>
          simp only [processMdastNodeChildren]
          split
          · exact children _ _ _ _ _ _
          · exact .bind (node _ _ _ _ _ _) fun _ => children _ _ _ _ _ _
      | toggle toggleId summaryWritten =>
          simp only [processMdastNodeChildren]
          split
          · exact children _ _ _ _ _ _
          · obtain ⟨extracted, found⟩ := extractTagContent_ok (by assumption) "summary"
            simp only [found, bind, Except.bind]
            split
            · exact .bind (body _ _ _) fun _ => children _ _ _ _ _ _
            · exact children _ _ _ _ _ _
          · exact .bind (node _ _ _ _ _ _) fun _ => children _ _ _ _ _ _

theorem toggleBodyNoPanic_succ (children : ChildrenNoPanic toMdast ids fuel) :
    ToggleBodyNoPanic toMdast ids (fuel + 1) := by
  intro s toggleId text
  simp only [processToggleBody]
  split
  · exact .ok _
  split
  · exact children _ _ _ _ _ _
  · exact .ok _

theorem rowsNoPanic_succ (row : RowNoPanic toMdast ids fuel)
    (rows : RowsNoPanic toMdast ids fuel) : RowsNoPanic toMdast ids (fuel + 1) := by
  intro s tableId align rowIndex tableRows
  cases tableRows with
  | nil => exact .ok _
  | cons first rest =>
      rw [processTableRows_succ]
      cases tableRowOf first with
      | some cells => exact .bind (row _ _ _ _ _) fun _ => rows _ _ _ _ _
      | none => exact .bind (.ok _) fun _ => rows _ _ _ _ _

theorem rowNoPanic_succ (cells : CellsNoPanic toMdast ids fuel) :
    RowNoPanic toMdast ids (fuel + 1) :=
  fun _ _ _ _ _ => cells _ _ _ _ _ _

theorem cellsNoPanic_succ (children : ChildrenNoPanic toMdast ids fuel)
    (cells : CellsNoPanic toMdast ids fuel) : CellsNoPanic toMdast ids (fuel + 1) := by
  intro s rowCells rowId rowIndex colIndex align
  cases rowCells with
  | nil => exact .ok _
  | cons first rest =>
      rw [processTableCells_succ]
      cases tableCellOf first with
      | some cellChildren => exact .bind (children _ _ _ _ _ _) fun _ => cells _ _ _ _ _ _
      | none => exact .bind (.ok _) fun _ => cells _ _ _ _ _ _

theorem columnsNoPanic_succ (columnRows : ColumnRowsNoPanic toMdast ids fuel)
    (columns : ColumnsNoPanic toMdast ids fuel) : ColumnsNoPanic toMdast ids (fuel + 1) := by
  intro s columnsId bodyRows colIndices
  cases colIndices with
  | nil => exact .ok _
  | cons colIndex rest => exact .bind (columnRows _ _ _ _) fun _ => columns _ _ _ _

theorem columnRowsNoPanic_succ (children : ChildrenNoPanic toMdast ids fuel)
    (columnRows : ColumnRowsNoPanic toMdast ids fuel) :
    ColumnRowsNoPanic toMdast ids (fuel + 1) := by
  intro s columnId colIndex bodyRows
  cases bodyRows with
  | nil => exact .ok _
  | cons first rest =>
      simp only [processNotionColumnRows]
      split
      · split
        · split
          · exact .bind (.ok _) fun _ => columnRows _ _ _ _
          · exact .bind (children _ _ _ _ _ _) fun _ => columnRows _ _ _ _
        · exact .bind (.ok _) fun _ => columnRows _ _ _ _
      · exact .bind (.ok _) fun _ => columnRows _ _ _ _

end Steps

/-- No call the walker makes with a parent panics; `processBlockContent` is
never asked for the content of an image. -/
theorem walk_noPanic (fuel : Nat) :
    NodeNoPanic toMdast ids fuel ∧ ContentNoPanic toMdast ids fuel ∧
      ChildrenNoPanic toMdast ids fuel ∧ ToggleBodyNoPanic toMdast ids fuel ∧
      RowsNoPanic toMdast ids fuel ∧ RowNoPanic toMdast ids fuel ∧
      CellsNoPanic toMdast ids fuel ∧ ColumnsNoPanic toMdast ids fuel ∧
      ColumnRowsNoPanic toMdast ids fuel := by
  induction fuel with
  | zero =>
      refine ⟨?_, ?_, ?_, ?_, ?_, ?_, ?_, ?_, ?_⟩ <;> intro s <;> intros <;> exact .outOfFuel
  | succ fuel inductionHypothesis =>
      obtain ⟨node, content, children, body, rows, row, cells, columns, columnRows⟩ :=
        inductionHypothesis
      exact ⟨nodeNoPanic_succ children content columns, contentNoPanic_succ children rows,
        childrenNoPanic_succ node children body, toggleBodyNoPanic_succ children,
        rowsNoPanic_succ row rows, rowNoPanic_succ cells, cellsNoPanic_succ children cells,
        columnsNoPanic_succ columnRows columns, columnRowsNoPanic_succ children columnRows⟩

end Walk

/-- At every fuel `import` does not panic, and it returns `ParseMarkdownError`
exactly when the top-level parse fails. -/
theorem importMd_safe (importer : MDImporter) (ids : Nat → String) (fuel : Nat)
    (documentId md : String) :
    NoPanic (importer.importMd ids fuel documentId md) ∧
      (importer.importMd ids fuel documentId md = .ok (.error .parseMarkdownError) ↔
        importer.toMdast md = none) := by
  cases fuel with
  | zero =>
      rw [importMd_zero]
      split
      · exact ⟨.ok _, by simp_all⟩
      · exact ⟨.outOfFuel, by simp_all⟩
  | succ fuel =>
      rw [importMd_succ]
      split
      · exact ⟨.ok _, by simp_all⟩
      · rename_i children parsed
        refine ⟨.bind ((walk_noPanic importer.toMdast ids fuel).2.1 _ _ _ _ _
          (by simp [blockContent])) fun _ => .ok _, ?_⟩
        simp only [parsed, reduceCtorEq, iff_false]
        cases processBlockContent importer.toMdast ids fuel (pageState documentId children)
          (.root children) documentId none none <;> simp [bind, Except.bind, pure, Except.pure]

end MdImporter
