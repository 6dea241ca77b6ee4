import MdImporter.Safety

/-!
# The walk terminates

`import` re-enters the parser on the body of a `<details>` fragment and on
what follows the `</summary>` of a `<summary>` sibling, and walks the result,
so the recursion is not structural on the tree it starts from. When no `Html`
value the parser returns is longer than the text it parsed, each re-parsed
string is strictly shorter than the `Html` value it was cut from
(`reparsedBodies_length_lt`). Below one bound on the `Html` values the walk
recurses on smaller syntax, and each sibling loop consumes one sibling a step;
so fuel enough for every call on a tree exists, by recursion on the tree
(`nodeFinishes`, `listFinishes`) inside an induction on the bound
(`walk_finishes`). With the walk's freedom from panics this gives
`processMdastNode_returns` for one node walked under a parent, which the table
layouts use, and `importMd_terminates` and `importMd_noPanic` for `import`.

The fuel a call needs depends only on the syntax it walks, never on the state
or the ids, so each statement holds from some fuel on for all of them.
-/

namespace MdImporter

set_option autoImplicit false

open RustStr

/-- A computation whose fuel did not run out: it returned, or it panicked. -/
def Finishes {α : Type} (result : Except Fault α) : Prop :=
  result ≠ .error .outOfFuel

namespace Finishes

variable {α β : Type}

theorem ok (a : α) : Finishes (.ok a : Except Fault α) := fun stopped => by cases stopped

theorem bind {x : Except Fault α} {k : α → Except Fault β} (first : Finishes x)
    (rest : ∀ a, Finishes (k a)) : Finishes (x >>= k) := by
  cases x with
  | ok a => exact rest a
  | error fault =>
      have stops : (Except.error fault >>= k : Except Fault β) = .error fault := rfl
      rw [stops]
      intro stopped
      injection stopped with same
      exact first (by rw [same])

theorem exists_ok {x : Except Fault α} (finishes : Finishes x) (noPanic : NoPanic x) :
    ∃ a, x = .ok a := by
  cases x with
  | ok a => exact ⟨a, rfl⟩
  | error fault =>
      cases fault with
      | panic message => exact absurd rfl (noPanic message)
      | outOfFuel => exact absurd rfl finishes

end Finishes

/-- `P` holds of every amount of fuel from some amount on. -/
def Eventually (P : Nat → Prop) : Prop :=
  ∃ bound, ∀ fuel, bound ≤ fuel → P fuel

namespace Eventually

variable {P Q : Nat → Prop}

theorem mono (holds : Eventually P) (weaker : ∀ fuel, P fuel → Q fuel) : Eventually Q :=
  let ⟨bound, after⟩ := holds
  ⟨bound, fun fuel enough => weaker fuel (after fuel enough)⟩

theorem and (first : Eventually P) (second : Eventually Q) :
    Eventually fun fuel => P fuel ∧ Q fuel :=
  let ⟨bound, after⟩ := first
  let ⟨bound', after'⟩ := second
  ⟨max bound bound', fun fuel enough =>
    ⟨after fuel ((le_max_left _ _).trans enough),
      after' fuel ((le_max_right _ _).trans enough)⟩⟩

theorem of_succ (holds : Eventually fun fuel => P (fuel + 1)) : Eventually P :=
  let ⟨bound, after⟩ := holds
  ⟨bound + 1, fun fuel enough => by
    obtain ⟨fuel, rfl⟩ : ∃ f, fuel = f + 1 := ⟨fuel - 1, by omega⟩
    exact after fuel (by omega)⟩

theorem forall_mem {α : Type} {P : α → Nat → Prop} :
    {items : List α} → (∀ a ∈ items, Eventually (P a)) →
      Eventually fun fuel => ∀ a ∈ items, P a fuel
  | [], _ => ⟨0, fun _ _ a member => absurd member (List.not_mem_nil a)⟩
  | item :: rest, each =>
      ((each item (List.mem_cons_self _ _)).and
        (forall_mem fun a member => each a (List.mem_cons_of_mem _ member))).mono
        fun _ holds a member => by
          rcases List.mem_cons.mp member with rfl | later
          · exact holds.1
          · exact holds.2 a later

end Eventually

/-- The strings the sibling loop may re-parse when it meets `node`: the body of
a `<details>` fragment, and what follows the `</summary>` of a `<summary>`
sibling. -/
def reparsedBodies : Node → List String
  | .html value =>
      (match parseDetailsHtml (trim value) with
        | .ok (some details) => [details.body]
        | _ => []) ++
      (match extractTagContent (trim value) "summary" with
        | .ok (some (_, after)) => [trim after]
        | _ => [])
  | _ => []

theorem reparsedBodies_length_lt {value body : String}
    (member : body ∈ reparsedBodies (.html value)) : body.length < value.length := by
  simp only [reparsedBodies, List.mem_append] at member
  rcases member with fromDetails | fromSummary
  · split at fromDetails
    · rename_i details parsed
      rw [List.mem_singleton.mp fromDetails]
      exact (parseDetailsHtml_body_lt parsed).trans_le (trim_length_le value)
    · cases fromDetails
  · split at fromSummary
    · rename_i summary after extracted
      rw [List.mem_singleton.mp fromSummary]
      exact (trim_length_le after).trans_lt
        ((extractTagContent_after_lt extracted).trans_le (trim_length_le value))
    · cases fromSummary

/-- The children of a table cell; nothing for any other node. -/
def cellChildren : Node → List Node
  | .tableCell children => children
  | _ => []

/-- The cells of a table row; nothing for any other node. -/
def rowCells : Node → List Node
  | .tableRow cells => cells
  | _ => []

theorem sizeOf_cellChildren_le (node : Node) : sizeOf (cellChildren node) ≤ sizeOf node := by
  cases node <;> simp [cellChildren] <;> omega

theorem sizeOf_rowCells_le (node : Node) : sizeOf (rowCells node) ≤ sizeOf node := by
  cases node <;> simp [rowCells] <;> omega

theorem htmlWithinList_cellChildren {bound : Nat} {node : Node}
    (within : node.htmlWithin bound = true) :
    Node.htmlWithinList bound (cellChildren node) = true := by
  cases node
  case tableCell children => simpa [Node.htmlWithin] using within
  all_goals rfl

theorem htmlWithinList_rowCells {bound : Nat} {node : Node}
    (within : node.htmlWithin bound = true) : Node.htmlWithinList bound (rowCells node) = true := by
  cases node
  case tableRow cells => simpa [Node.htmlWithin] using within
  all_goals rfl

theorem Eventually.of_option {β : Type} {o : Option β} {P : β → Nat → Prop}
    (each : ∀ b, o = some b → Eventually (P b)) :
    Eventually fun fuel => ∀ b, o = some b → P b fuel := by
  cases o with
  | none => exact ⟨0, fun _ _ _ missing => by cases missing⟩
  | some b =>
      exact (each b rfl).mono fun _ holds b' same => by
        cases same
        exact holds

section Walk

variable (toMdast : String → Option (List Node)) (ids : Nat → String)

/-- `processMdastNode` and `processBlockContent` finish on `node` from some
fuel on, whatever their other arguments. -/
def NodeFinishes (node : Node) : Prop :=
  (Eventually fun fuel => ∀ s parentId blockId listType startNumber,
    Finishes (processMdastNode toMdast ids fuel s node parentId blockId listType startNumber)) ∧
  Eventually fun fuel => ∀ s id listType startNumber,
    Finishes (processBlockContent toMdast ids fuel s node id listType startNumber)

def ChildrenFinish (nodes : List Node) : Prop :=
  Eventually fun fuel => ∀ s parentId pending listType startNumber,
    Finishes (processMdastNodeChildren toMdast ids fuel s parentId pending nodes listType
      startNumber)

def BodyFinishes (body : String) : Prop :=
  Eventually fun fuel => ∀ s toggleId, Finishes (processToggleBody toMdast ids fuel s toggleId body)

def RowsFinish (rows : List Node) : Prop :=
  Eventually fun fuel => ∀ s tableId align rowIndex,
    Finishes (processTableRows toMdast ids fuel s tableId align rowIndex rows)

def CellsFinish (cells : List Node) : Prop :=
  Eventually fun fuel => ∀ s rowId rowIndex colIndex align,
    Finishes (processTableCells toMdast ids fuel s cells rowId rowIndex colIndex align)

def ColumnRowsFinish (rows : List Node) : Prop :=
  Eventually fun fuel => ∀ s columnId colIndex,
    Finishes (processNotionColumnRows toMdast ids fuel s columnId colIndex rows)

/-- Every loop over a list of nodes finishes on `nodes`: as siblings, as table
rows, as the cells of a row and as the body rows of a columns table; and so
does the sibling loop over each cell's children. -/
structure ListFinishes (nodes : List Node) : Prop where
  children : ChildrenFinish toMdast ids nodes
  rows : RowsFinish toMdast ids nodes
  cells : CellsFinish toMdast ids nodes
  columnRows : ColumnRowsFinish toMdast ids nodes
  cellChildren : ∀ cell ∈ nodes, ChildrenFinish toMdast ids (cellChildren cell)

theorem childrenFinish_nil : ChildrenFinish toMdast ids [] :=
  .of_succ ⟨0, fun _ _ _ _ pending _ _ => by cases pending <;> exact .ok _⟩

theorem childrenFinish_cons {node : Node} {rest : List Node}
    (head : NodeFinishes toMdast ids node)
    (bodies : ∀ body ∈ reparsedBodies node, BodyFinishes toMdast ids body)
    (tail : ChildrenFinish toMdast ids rest) : ChildrenFinish toMdast ids (node :: rest) := by
  refine .of_succ ((head.1.and ((Eventually.forall_mem bodies).and tail)).mono ?_)
  rintro fuel ⟨walked, reparsed, looped⟩ s parentId pending listType startNumber
  cases pending with
  | none =>
      simp only [processMdastNodeChildren]
      split
      · exact looped _ _ _ _ _
      · exact looped _ _ _ _ _
      · rename_i value classified
        obtain ⟨parsed, found⟩ := parseDetailsHtml_ok value
        simp only [generateId, found, bind, Except.bind]
        split
        · rename_i details
          have member : details.body ∈ reparsedBodies node := by
            obtain ⟨raw, rfl, rfl⟩ := classifySibling_eq_details classified
            simp [reparsedBodies, found]
          exact .bind (reparsed _ member _ _) fun _ => looped _ _ _ _ _
        · exact looped _ _ _ _ _
      · exact .bind (walked _ _ _ _ _) fun _ => looped _ _ _ _ _
  | callout calloutId =>
      simp only [processMdastNodeChildren]
      split
      · exact looped _ _ _ _ _
      · exact .bind (walked _ _ _ _ _) fun _ => looped _ _ _ _ _
  | toggle toggleId summaryWritten =>
      simp only [processMdastNodeChildren]
      split
      · exact looped _ _ _ _ _
      · rename_i value classified
        obtain ⟨extracted, found⟩ := extractTagContent_ok value "summary"
        simp only [found, bind, Except.bind]
        split
        · rename_i summary after
          have member : trim after ∈ reparsedBodies node := by
            obtain ⟨raw, rfl, rfl⟩ := classifyToggleSibling_eq_summary classified
            simp [reparsedBodies, found]
          exact .bind (reparsed _ member _ _) fun _ => looped _ _ _ _ _
        · exact looped _ _ _ _ _
      · exact .bind (walked _ _ _ _ _) fun _ => looped _ _ _ _ _

theorem rowsFinish_nil : RowsFinish toMdast ids [] :=
  .of_succ ⟨0, fun _ _ _ _ _ _ => .ok _⟩

theorem rowsFinish_cons {row : Node} {rest : List Node}
    (head : CellsFinish toMdast ids (rowCells row)) (tail : RowsFinish toMdast ids rest) :
    RowsFinish toMdast ids (row :: rest) := by
  have rowFinishes : Eventually fun fuel => ∀ s rowIndex tableId align,
      Finishes (processTableRow toMdast ids fuel s (rowCells row) rowIndex tableId align) :=
    .of_succ (head.mono fun _ cells s rowIndex tableId align => by
      simp only [processTableRow]
      exact cells _ _ _ _ _)
  refine .of_succ ((rowFinishes.and tail).mono ?_)
  rintro fuel ⟨walked, looped⟩ s tableId align rowIndex
  simp only [processTableRows]
  split
  · exact .bind (walked _ _ _ _) fun _ => looped _ _ _ _
  · exact .bind (.ok _) fun _ => looped _ _ _ _

theorem cellsFinish_nil : CellsFinish toMdast ids [] :=
  .of_succ ⟨0, fun _ _ _ _ _ _ _ => .ok _⟩

theorem cellsFinish_cons {cell : Node} {rest : List Node}
    (head : ChildrenFinish toMdast ids (cellChildren cell)) (tail : CellsFinish toMdast ids rest) :
    CellsFinish toMdast ids (cell :: rest) := by
  refine .of_succ ((head.and tail).mono ?_)
  rintro fuel ⟨walked, looped⟩ s rowId rowIndex colIndex align
  simp only [processTableCells]
  split
  · exact .bind (walked _ _ _ _ _) fun _ => looped _ _ _ _ _
  · exact .bind (.ok _) fun _ => looped _ _ _ _ _

theorem columnRowsFinish_nil : ColumnRowsFinish toMdast ids [] :=
  .of_succ ⟨0, fun _ _ _ _ _ => .ok _⟩

theorem columnRowsFinish_cons {row : Node} {rest : List Node}
    (head : ∀ cell ∈ rowCells row, ChildrenFinish toMdast ids (cellChildren cell))
    (tail : ColumnRowsFinish toMdast ids rest) :
    ColumnRowsFinish toMdast ids (row :: rest) := by
  refine .of_succ (((Eventually.forall_mem head).and tail).mono ?_)
  rintro fuel ⟨walked, looped⟩ s columnId colIndex
  simp only [processNotionColumnRows]
  split
  · rename_i cells
    split
    · rename_i children found
      split
      · exact .bind (.ok _) fun _ => looped _ _ _
      · exact .bind (walked _ (List.getElem?_mem found) _ _ _ _ _) fun _ => looped _ _ _
    · exact .bind (.ok _) fun _ => looped _ _ _
  · exact .bind (.ok _) fun _ => looped _ _ _

theorem processNotionColumns_finishes {bodyRows : List Node}
    (rows : ColumnRowsFinish toMdast ids bodyRows) :
    ∀ colIndices, Eventually fun fuel => ∀ s columnsId,
      Finishes (processNotionColumns toMdast ids fuel s columnsId bodyRows colIndices)
  | [] => .of_succ ⟨0, fun _ _ _ _ => .ok _⟩
  | _ :: colIndices =>
      .of_succ ((rows.and (processNotionColumns_finishes rows colIndices)).mono
        fun _ ⟨walked, looped⟩ _ _ => .bind (walked _ _ _) fun _ => looped _ _)

def ContentFinishes : BlockContent → Prop
  | .children children => ChildrenFinish toMdast ids children
  | .headed head rest =>
      (∀ para, head = some para → ChildrenFinish toMdast ids para) ∧
        ChildrenFinish toMdast ids rest
  | .rows _ rows => RowsFinish toMdast ids rows
  | .done | .text _ | .unreachable => True

theorem processBlockContent_finishes {node : Node}
    (content : ContentFinishes toMdast ids (blockContent node)) :
    Eventually fun fuel => ∀ s id listType startNumber,
      Finishes (processBlockContent toMdast ids fuel s node id listType startNumber) := by
  refine .of_succ ?_
  simp only [processBlockContent_succ]
  generalize blockContent node = c at content ⊢
  cases c with
  | children children => exact content.mono fun _ walked _ _ _ _ => walked _ _ _ _ _
  | headed head rest =>
      obtain ⟨first, second⟩ := content
      cases head with
      | none => exact second.mono fun _ walked _ _ _ _ => .bind (.ok _) fun _ => walked _ _ _ _ _
      | some para =>
          exact ((first para rfl).and second).mono fun _ walked _ _ _ _ =>
            .bind (walked.1 _ _ _ _ _) fun _ => walked.2 _ _ _ _ _
  | done => exact ⟨0, fun _ _ _ _ _ _ => .ok _⟩
  | text value => exact ⟨0, fun _ _ _ _ _ _ => .ok _⟩
  | rows align rows => exact content.mono fun _ walked _ _ _ _ => walked _ _ _ _
  | unreachable => exact ⟨0, fun _ _ _ _ _ _ stopped => by cases stopped⟩

theorem processMdastNode_finishes {node : Node}
    (listed : ∀ info, node.getMdastNodeInfo = some info → ChildrenFinish toMdast ids info.1)
    (columns : ∀ info, notionColumnsOf node = some info →
      ColumnRowsFinish toMdast ids info.bodyRows)
    (content : Eventually fun fuel => ∀ s id listType startNumber,
      Finishes (processBlockContent toMdast ids fuel s node id listType startNumber)) :
    Eventually fun fuel => ∀ s parentId blockId listType startNumber,
      Finishes (processMdastNode toMdast ids fuel s node parentId blockId listType
        startNumber) := by
  have everyColumn := Eventually.of_option fun info (found : notionColumnsOf node = some info) =>
    processNotionColumns_finishes toMdast ids (columns info found) (List.range info.colCount)
  refine .of_succ (((Eventually.of_option listed).and (everyColumn.and content)).mono ?_)
  rintro fuel ⟨items, columnsWalked, contentWalked⟩ s parentId blockId listType startNumber
  rw [processMdastNode.eq_2]
  split
  · exact .ok _
  split
  · exact .ok _
  split
  · rename_i info found
    exact items _ found _ _ _ _ _
  obtain ⟨url, found⟩ := imageOf_ok node
  simp only [found, bind, Except.bind]
  split
  · exact .ok _
  split
  · rename_i info found
    exact columnsWalked _ found _ _
  · exact contentWalked _ _ _ _

theorem bodyFinishes_of_parsed {body : String}
    (parsed : ∀ children, toMdast body = some children → ChildrenFinish toMdast ids children) :
    BodyFinishes toMdast ids body := by
  refine .of_succ ((Eventually.of_option parsed).mono ?_)
  intro fuel walked s toggleId
  simp only [processToggleBody]
  split
  · exact .ok _
  split
  · rename_i children found
    exact walked _ found _ _ _ _ _
  · exact .ok _

section Bounded

variable {bound : Nat}

theorem nodeFinishes_of_smaller {node : Node}
    (smaller : ∀ nodes : List Node, sizeOf nodes < sizeOf node →
      Node.htmlWithinList bound nodes = true → ListFinishes toMdast ids nodes)
    (within : node.htmlWithin bound = true) : NodeFinishes toMdast ids node := by
  have content : ContentFinishes toMdast ids (blockContent node) := by
    cases node
    case root children | paragraph children | heading _ children =>
      exact (smaller children (by simp_arith) (by simpa [Node.htmlWithin] using within)).children
    case blockquote children | listItem _ children =>
      cases children with
      | nil => trivial
      | cons first rest =>
          simp only [Node.htmlWithin, Node.htmlWithinList_cons, Bool.and_eq_true] at within
          refine ⟨fun para head => ?_, (smaller rest (by simp_arith) within.2).children⟩
          cases first <;> simp only [Option.some.injEq, reduceCtorEq] at head
          subst head
          exact (smaller _ (by simp_arith) (by simpa [Node.htmlWithin] using within.1)).children
    case table align rows =>
      exact (smaller rows (by simp_arith) (by simpa [Node.htmlWithin] using within)).rows
    all_goals trivial
  refine ⟨processMdastNode_finishes toMdast ids (fun info found => ?_) (fun info found => ?_)
    (processBlockContent_finishes toMdast ids content),
    processBlockContent_finishes toMdast ids content⟩
  · cases node <;> simp only [Node.getMdastNodeInfo, reduceCtorEq] at found
    cases found
    exact (smaller _ (by simp_arith) (by simpa [Node.htmlWithin] using within)).children
  · cases node <;> simp only [notionColumnsOf, reduceCtorEq] at found
    obtain ⟨header, rfl⟩ := parseNotionColumnsTable_bodyRows found
    simp only [Node.htmlWithin, Node.htmlWithinList_cons, Bool.and_eq_true] at within
    exact (smaller _ (by simp_arith) within.2).columnRows

theorem listFinishes_nil : ListFinishes toMdast ids [] :=
  ⟨childrenFinish_nil toMdast ids, rowsFinish_nil toMdast ids, cellsFinish_nil toMdast ids,
    columnRowsFinish_nil toMdast ids, fun _ member => absurd member (List.not_mem_nil _)⟩

theorem listFinishes_cons {node : Node} {rest : List Node}
    (shorter : ∀ body : String, body.length < bound → BodyFinishes toMdast ids body)
    (within : node.htmlWithin bound = true) (head : NodeFinishes toMdast ids node)
    (cells : ListFinishes toMdast ids (rowCells node))
    (children : ListFinishes toMdast ids (cellChildren node))
    (tail : ListFinishes toMdast ids rest) : ListFinishes toMdast ids (node :: rest) := by
  have bodies : ∀ body ∈ reparsedBodies node, BodyFinishes toMdast ids body := by
    intro body member
    cases node <;> simp only [reparsedBodies, List.not_mem_nil] at member
    rename_i value
    simp only [Node.htmlWithin, decide_eq_true_eq] at within
    exact shorter body ((reparsedBodies_length_lt member).trans_le within)
  refine ⟨childrenFinish_cons toMdast ids head bodies tail.children,
    rowsFinish_cons toMdast ids cells.cells tail.rows,
    cellsFinish_cons toMdast ids children.children tail.cells,
    columnRowsFinish_cons toMdast ids cells.cellChildren tail.columnRows, ?_⟩
  intro cell member
  rcases List.mem_cons.mp member with rfl | later
  · exact children.children
  · exact tail.cellChildren cell later

/-- Below a bound on the `Html` values, when every string shorter than the
bound re-parses into a walk that finishes, every node and every list of nodes
finishes: by induction on the size of the syntax. -/
theorem walk_finishes_below
    (shorter : ∀ body : String, body.length < bound → BodyFinishes toMdast ids body) :
    ∀ size, (∀ node : Node, sizeOf node < size → node.htmlWithin bound = true →
        NodeFinishes toMdast ids node) ∧
      ∀ nodes : List Node, sizeOf nodes < size → Node.htmlWithinList bound nodes = true →
        ListFinishes toMdast ids nodes
  | 0 => ⟨fun _ small => absurd small (Nat.not_lt_zero _),
      fun _ small => absurd small (Nat.not_lt_zero _)⟩
  | size + 1 =>
      have inductionHypothesis := walk_finishes_below shorter size
      ⟨fun _ small within => nodeFinishes_of_smaller toMdast ids
          (fun _ smaller => inductionHypothesis.2 _ (by omega)) within,
        fun nodes small within => by
          cases nodes with
          | nil => exact listFinishes_nil toMdast ids
          | cons node rest =>
              simp only [Node.htmlWithinList_cons, Bool.and_eq_true] at within
              simp only [List.cons.sizeOf_spec] at small
              exact listFinishes_cons toMdast ids shorter within.1
                (inductionHypothesis.1 node (by omega) within.1)
                (inductionHypothesis.2 _ (by have := sizeOf_rowCells_le node; omega)
                  (htmlWithinList_rowCells within.1))
                (inductionHypothesis.2 _ (by have := sizeOf_cellChildren_le node; omega)
                  (htmlWithinList_cellChildren within.1))
                (inductionHypothesis.2 rest (by omega) within.2)⟩

end Bounded

/-- When the parser never returns an `Html` value longer than the text it
parsed, every loop over a forest finishes, whatever bound its `Html` values
keep: by induction on the bound, since a re-parsed body is shorter than the
value it was cut from. -/
theorem walk_finishes
    (bounded : ∀ text children, toMdast text = some children →
      Node.htmlWithinList text.length children = true) (bound : Nat) :
    ∀ nodes, Node.htmlWithinList bound nodes = true → ListFinishes toMdast ids nodes := by
  induction bound using Nat.strong_induction_on with
  | _ bound inductionHypothesis =>
      have shorter : ∀ body : String, body.length < bound → BodyFinishes toMdast ids body :=
        fun body short => bodyFinishes_of_parsed toMdast ids fun children parsed =>
          (inductionHypothesis _ short children (bounded body children parsed)).children
      exact fun nodes => (walk_finishes_below toMdast ids shorter (sizeOf nodes + 1)).2 nodes
        (Nat.lt_succ_self _)

theorem nodeFinishes_of_bounded
    (bounded : ∀ text children, toMdast text = some children →
      Node.htmlWithinList text.length children = true) (node : Node) :
    NodeFinishes toMdast ids node :=
  let ⟨bound, within⟩ := node.exists_htmlWithin
  nodeFinishes_of_smaller toMdast ids
    (fun nodes _ => walk_finishes toMdast ids bounded bound nodes) within

theorem processMdastNode_returns
    (bounded : ∀ text children, toMdast text = some children →
      Node.htmlWithinList text.length children = true) (node : Node) :
    Eventually fun fuel => ∀ s parent blockId listType startNumber, ∃ s',
      processMdastNode toMdast ids fuel s node (some parent) blockId listType startNumber =
        .ok s' :=
  (nodeFinishes_of_bounded toMdast ids bounded node).1.mono
    fun fuel finishes s parent blockId listType startNumber =>
      (finishes s (some parent) blockId listType startNumber).exists_ok
        ((walk_noPanic toMdast ids fuel).1 s node parent blockId listType startNumber)

end Walk

theorem importMd_finishes (importer : MDImporter) (ids : Nat → String) (documentId md : String)
    (bounded : ∀ text children, importer.toMdast text = some children →
      Node.htmlWithinList text.length children = true) :
    Eventually fun fuel => Finishes (importer.importMd ids fuel documentId md) := by
  cases parsed : importer.toMdast md with
  | none => exact ⟨0, fun _ _ => by unfold MDImporter.importMd; rw [parsed]; exact .ok _⟩
  | some children =>
      refine .of_succ ((@processBlockContent_finishes importer.toMdast ids (.root children)
        (walk_finishes importer.toMdast ids bounded md.length children
          (bounded md children parsed)).children).mono fun fuel finishes => ?_)
      rw [importMd_succ, parsed]
      exact .bind (finishes _ _ _ _) fun _ => .ok _

/-- When the parser never returns an `Html` value longer than the text it
parsed, `import` returns on every input once it is given enough fuel. -/
theorem importMd_terminates (importer : MDImporter) (ids : Nat → String)
    (documentId md : String)
    (bounded : ∀ text children, importer.toMdast text = some children →
      Node.htmlWithinList text.length children = true) :
    ∃ bound, ∀ fuel, bound ≤ fuel →
      ∃ result, importer.importMd ids fuel documentId md = .ok result :=
  (importMd_finishes importer ids documentId md bounded).mono fun fuel finishes =>
    finishes.exists_ok (importMd_safe importer ids fuel documentId md).1

/-- When the parser keeps the bound, `import` never panics, and from some fuel
on it returns: `ParseMarkdownError` exactly when the top-level parse fails, and
a snapshot otherwise. -/
theorem importMd_noPanic (importer : MDImporter) (ids : Nat → String) (documentId md : String)
    (bounded : ∀ text children, importer.toMdast text = some children →
      Node.htmlWithinList text.length children = true) :
    (∀ fuel, NoPanic (importer.importMd ids fuel documentId md)) ∧
      ∃ bound, ∀ fuel, bound ≤ fuel → ∃ result,
        importer.importMd ids fuel documentId md = .ok result ∧
          (result = .error .parseMarkdownError ↔ importer.toMdast md = none) :=
  ⟨fun fuel => (importMd_safe importer ids fuel documentId md).1,
    (importMd_finishes importer ids documentId md bounded).mono fun fuel finishes =>
      have safe := importMd_safe importer ids fuel documentId md
      let ⟨result, returned⟩ := finishes.exists_ok safe.1
      ⟨result, returned, by rw [← safe.2, returned, Except.ok.injEq]⟩⟩

theorem htmlParser_bounded :
    ∀ text children, (⟨fun text => some [.html text]⟩ : MDImporter).toMdast text = some children →
      Node.htmlWithinList text.length children = true := fun text _ parsed => by
  cases parsed
  exact (Bool.and_eq_true _ _).mpr ⟨decide_eq_true (Nat.le_refl _), rfl⟩

theorem importMd_terminates_details :
    (∀ text children, (⟨fun text => some [.html text]⟩ : MDImporter).toMdast text = some children →
      Node.htmlWithinList text.length children = true) ∧
    ∃ bound, ∀ fuel, bound ≤ fuel → ∃ result,
      (⟨fun text => some [.html text]⟩ : MDImporter).importMd (fun n => ⟨List.replicate (n + 1) 'b'⟩)
        fuel "P" "<details><summary>S</summary>body</details>" = .ok result :=
  ⟨htmlParser_bounded, importMd_terminates _ _ _ _ htmlParser_bounded⟩

theorem failingParser_bounded :
    ∀ text children, (fun _ => none : String → Option (List Node)) text = some children →
      Node.htmlWithinList text.length children = true :=
  fun _ _ parsed => by cases parsed

theorem importMd_noPanic_details :
    (∀ text children, (⟨fun text => some [.html text]⟩ : MDImporter).toMdast text = some children →
      Node.htmlWithinList text.length children = true) ∧
    (∀ fuel, NoPanic ((⟨fun text => some [.html text]⟩ : MDImporter).importMd
        (fun n => ⟨List.replicate (n + 1) 'b'⟩) fuel "P" "<details><summary>S</summary>body</details>")) ∧
      ∃ bound, ∀ fuel, bound ≤ fuel → ∃ result,
        (⟨fun text => some [.html text]⟩ : MDImporter).importMd (fun n => ⟨List.replicate (n + 1) 'b'⟩)
          fuel "P" "<details><summary>S</summary>body</details>" = .ok result ∧
        (result = .error .parseMarkdownError ↔
          (⟨fun text => some [.html text]⟩ : MDImporter).toMdast
            "<details><summary>S</summary>body</details>" = none) :=
  ⟨htmlParser_bounded, importMd_noPanic _ _ _ _ htmlParser_bounded⟩

end MdImporter
