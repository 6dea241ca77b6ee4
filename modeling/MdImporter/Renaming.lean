import MdImporter.Tree

/-!
# Ids are names only

The walker never looks at what an id is: it stores ids, and it compares them
only as keys of the snapshot's maps. So two runs of `import` on the same
input, with two id supplies, are one run renamed. `ImportState.RenamedOn` is
the simulation relation: the second state is the first with every id renamed
by `σ`, which sends the first supply's `n`-th id to the second's, and every key
of the first state is one of `names`, on which `σ` is injective. Each
operation of the walker keeps the relation (`RenamedOn.registerBlock`,
`RenamedOn.insertMarkdownAsInlineDelta`, ...), so every call does
(`walk_renamed`), and `importMd_renamed` is the result for `import`.

The page block gets the empty string as its parent, and an image block the
empty string as its children id; a renaming must keep both, so it cannot send
an id of the first supply to anything else when that id is the empty string.
-/

namespace MdImporter

set_option autoImplicit false

open RustStr

namespace HashMap

variable {α β : Type} {σ : String → String} {f : α → β}

/-- `m'` holds the entries of `m`, in the same order, with each key renamed by
`σ` and each value by `f`. -/
def Renamed (σ : String → String) (f : α → β) (m : HashMap α) (m' : HashMap β) : Prop :=
  m'.entries = m.entries.map fun entry => (σ entry.1, f entry.2)

theorem Renamed.keys_eq {m : HashMap α} {m' : HashMap β} (renamed : Renamed σ f m m') :
    m'.keys = m.keys.map σ := by
  unfold Renamed at renamed
  simp only [keys, renamed, List.map_map]
  rfl

theorem Renamed.upsert {m : HashMap α} {m' : HashMap β} {key : String} {default : α}
    {update : α → α} {update' : β → β} (renamed : Renamed σ f m m')
    (distinct : ∀ other ∈ m.keys, σ other = σ key → other = key)
    (commutes : ∀ value, f (update value) = update' (f value)) :
    Renamed σ f (m.upsert key default update) (m'.upsert (σ key) (f default) update') := by
  have present : σ key ∈ m'.entries.map Prod.fst ↔ key ∈ m.entries.map Prod.fst := by
    rw [← keys, renamed.keys_eq, List.mem_map]
    exact ⟨fun ⟨other, member, same⟩ => distinct other member same ▸ member,
      fun member => ⟨key, member, rfl⟩⟩
  unfold Renamed at renamed ⊢
  simp only [HashMap.upsert, upsertEntries]
  by_cases member : key ∈ m.entries.map Prod.fst
  · rw [if_pos (present.mpr member), if_pos member, renamed, List.map_map, List.map_map]
    refine List.map_congr_left fun entry known => ?_
    by_cases same : entry.1 = key
    · simp [same, commutes]
    · have renamedApart : σ entry.1 ≠ σ key := fun merged =>
        same (distinct _ (List.mem_map_of_mem _ known) merged)
      simp [same, renamedApart]
  · rw [if_neg (mt present.mp member), if_neg member, renamed, List.map_append]
    simp [commutes]

end HashMap

/-- A block with the ids it holds renamed: its own, its parent's, its
children list's and its text's. -/
def Block.rename (σ : String → String) (block : Block) : Block :=
  { block with
    id := σ block.id
    parent := σ block.parent
    children := σ block.children
    externalId := block.externalId.map σ }

section Blocks

variable {σ : String → String}

theorem getD_blank_map (blank : σ "" = "") (parentId : Option String) :
    (parentId.map σ).getD "" = σ (parentId.getD "") := by
  cases parentId <;> simp [blank]

theorem createBlock_rename (blank : σ "" = "") (id : String) (node : Node)
    (parentId : Option String) (listType : Option Node.ListType) (startNumber : Option Nat) :
    (createBlock id node parentId listType startNumber).rename σ =
      createBlock (σ id) node (parentId.map σ) listType startNumber := by
  simp [Block.rename, createBlock, getD_blank_map blank]

theorem createImageBlock_rename (blank : σ "" = "") (id url parentId : String) :
    (createImageBlock id url parentId).rename σ = createImageBlock (σ id) url (σ parentId) := by
  simp [Block.rename, createImageBlock, blank]

theorem createSimpleTableRowBlock_rename (id parentId : String) :
    (createSimpleTableRowBlock id parentId).rename σ =
      createSimpleTableRowBlock (σ id) (σ parentId) := rfl

theorem createSimpleTableCellBlock_rename (id parentId : String) (row col : Nat)
    (alignments : List AlignKind) :
    (createSimpleTableCellBlock id parentId row col alignments).rename σ =
      createSimpleTableCellBlock (σ id) (σ parentId) row col alignments := rfl

theorem containerBlock_rename (ty : BlockType) (id : String) (data : BlockData)
    (parent : String) :
    (containerBlock ty id data parent).rename σ = containerBlock ty (σ id) data (σ parent) := rfl

theorem containerBlock_getD_rename (blank : σ "" = "") (ty : BlockType) (id : String)
    (data : BlockData) (parentId : Option String) :
    (containerBlock ty id data (parentId.getD "")).rename σ =
      containerBlock ty (σ id) data ((parentId.map σ).getD "") := by
  rw [containerBlock_rename, getD_blank_map blank]

theorem calloutBlock_rename (blank : σ "" = "") (calloutId icon : String)
    (parentId : Option String) :
    (calloutBlock calloutId icon parentId).rename σ =
      calloutBlock (σ calloutId) icon (parentId.map σ) := by
  exact containerBlock_getD_rename blank _ _ _ _

end Blocks

namespace DocumentData

/-- `d'` is `d` with its ids renamed by `σ`: the page id, the keys of the three
maps, the ids each block holds and each children list, in order; types, data
and deltas are kept. -/
structure Renamed (σ : String → String) (d d' : DocumentData) : Prop where
  pageId : d'.pageId = σ d.pageId
  blocks : d.blocks.Renamed σ (Block.rename σ) d'.blocks
  childrenMap : d.meta.childrenMap.Renamed σ (List.map σ) d'.meta.childrenMap
  textMap : d.meta.textMap.Renamed σ id d'.meta.textMap

/-- The relation between the documents of two runs: `d'` is `d` renamed, and
every key of `d` is one of `names`. -/
structure RenamedOn (names : Set String) (σ : String → String) (d d' : DocumentData)
    extends Renamed σ d d' : Prop where
  blocksNamed : ∀ key ∈ d.blocks.keys, key ∈ names
  childrenNamed : ∀ key ∈ d.meta.childrenMap.keys, key ∈ names
  textNamed : ∀ key ∈ d.meta.textMap.keys, key ∈ names

namespace RenamedOn

variable {names : Set String} {σ : String → String} {d d' : DocumentData}

theorem named_upsert {α : Type} {m : HashMap α} {key : String} (named : key ∈ names)
    (keysNamed : ∀ other ∈ m.keys, other ∈ names) (default : α) (update : α → α) :
    ∀ other ∈ (m.upsert key default update).keys, other ∈ names := fun other member => by
  rcases (HashMap.mem_keys_upsert m key other default update).mp member with rfl | old
  · exact named
  · exact keysNamed other old

theorem insertBlock (related : d.RenamedOn names σ d') (injective : Set.InjOn σ names)
    {key : String} (named : key ∈ names) {block block' : Block}
    (renamed : block.rename σ = block') :
    (d.insertBlock key block).RenamedOn names σ (d'.insertBlock (σ key) block') :=
  { pageId := related.pageId
    blocks := renamed ▸ related.blocks.upsert
      (fun other member => injective (related.blocksNamed other member) named) fun _ => rfl
    childrenMap := related.childrenMap
    textMap := related.textMap
    blocksNamed := named_upsert named related.blocksNamed _ _
    childrenNamed := related.childrenNamed
    textNamed := related.textNamed }

theorem ensureChildrenMapEntry (related : d.RenamedOn names σ d') (injective : Set.InjOn σ names)
    {key : String} (named : key ∈ names) :
    (d.ensureChildrenMapEntry key).RenamedOn names σ (d'.ensureChildrenMapEntry (σ key)) :=
  { pageId := related.pageId
    blocks := related.blocks
    childrenMap := related.childrenMap.upsert
      (fun other member => injective (related.childrenNamed other member) named) fun _ => rfl
    textMap := related.textMap
    blocksNamed := related.blocksNamed
    childrenNamed := named_upsert named related.childrenNamed _ _
    textNamed := related.textNamed }

theorem updateChildrenMap (related : d.RenamedOn names σ d') (injective : Set.InjOn σ names)
    {parentId : Option String} (named : ∀ parent ∈ parentId, parent ∈ names)
    (child : String) :
    (d.updateChildrenMap parentId child).RenamedOn names σ
      (d'.updateChildrenMap (parentId.map σ) (σ child)) := by
  cases parentId with
  | none => exact related
  | some parent =>
      have parentNamed := named parent rfl
      exact
        { pageId := related.pageId
          blocks := related.blocks
          childrenMap := related.childrenMap.upsert
            (fun other member => injective (related.childrenNamed other member) parentNamed)
            fun _ => List.map_append _ _ _
          textMap := related.textMap
          blocksNamed := related.blocksNamed
          childrenNamed := named_upsert parentNamed related.childrenNamed _ _
          textNamed := related.textNamed }

theorem insertDeltaToTextMap (related : d.RenamedOn names σ d') (injective : Set.InjOn σ names)
    {key : String} (named : key ∈ names) (delta : Delta) :
    (d.insertDeltaToTextMap key delta).RenamedOn names σ
      (d'.insertDeltaToTextMap (σ key) delta) :=
  { pageId := related.pageId
    blocks := related.blocks
    childrenMap := related.childrenMap
    textMap := related.textMap.upsert
      (fun other member => injective (related.textNamed other member) named) fun _ => rfl
    blocksNamed := related.blocksNamed
    childrenNamed := related.childrenNamed
    textNamed := named_upsert named related.textNamed _ _ }

theorem registerBlock (related : d.RenamedOn names σ d') (injective : Set.InjOn σ names)
    {key : String} (named : key ∈ names) {parentId : Option String}
    (parentNamed : ∀ parent ∈ parentId, parent ∈ names) {block block' : Block}
    (renamed : block.rename σ = block') :
    (d.registerBlock key block parentId).RenamedOn names σ
      (d'.registerBlock (σ key) block' (parentId.map σ)) :=
  (((related.insertBlock injective named renamed).ensureChildrenMapEntry injective named)
    |>.updateChildrenMap injective parentNamed key)

theorem processInlineMdastNode (related : d.RenamedOn names σ d') (injective : Set.InjOn σ names)
    (node : Node) {parentId : Option String} (named : ∀ parent ∈ parentId, parent ∈ names) :
    (d.processInlineMdastNode node parentId).RenamedOn names σ
      (d'.processInlineMdastNode node (parentId.map σ)) := by
  cases parentId with
  | none => exact related
  | some parent => exact related.insertDeltaToTextMap injective (named parent rfl) _

theorem foldl {γ : Type} {step step' : DocumentData → γ → DocumentData}
    (preserves : ∀ d d' x, d.RenamedOn names σ d' →
      (step d x).RenamedOn names σ (step' d' x)) :
    ∀ (xs : List γ) {d d' : DocumentData}, d.RenamedOn names σ d' →
      (xs.foldl step d).RenamedOn names σ (xs.foldl step' d')
  | [], _, _, related => related
  | x :: xs, _, _, related => foldl preserves xs (preserves _ _ x related)

theorem insertMarkdownAsInlineDelta (related : d.RenamedOn names σ d')
    (injective : Set.InjOn σ names) (toMdast : String → Option (List Node)) {key : String}
    (named : key ∈ names) (markdown : String) :
    (d.insertMarkdownAsInlineDelta toMdast key markdown).RenamedOn names σ
      (d'.insertMarkdownAsInlineDelta toMdast (σ key) markdown) := by
  have inlineChild : ∀ (d d' : DocumentData) (child : Node), d.RenamedOn names σ d' →
      (d.insertInlineChild key child).RenamedOn names σ (d'.insertInlineChild (σ key) child) :=
    fun _ _ child related => by
      unfold DocumentData.insertInlineChild
      split
      · exact related.processInlineMdastNode injective child
          fun _ same => Option.mem_some_iff.mp same ▸ named
      · exact related.insertDeltaToTextMap injective named _
  unfold DocumentData.insertMarkdownAsInlineDelta
  dsimp only
  split
  · exact related
  cases toMdast (trim markdown) with
  | none => exact related.insertDeltaToTextMap injective named _
  | some children =>
      refine foldl (fun _ _ child related => ?_) children related
      cases child <;>
        first
        | exact foldl (inlineChild) _ related
        | exact related.insertDeltaToTextMap injective named _

end RenamedOn

end DocumentData

/-- `σ` sends each id of `ids` to the id `ids'` hands out at the same count, is
injective on `names`, which holds every id of `ids`, and keeps the empty
string. -/
structure Renaming (ids ids' : Nat → String) (names : Set String) (σ : String → String) :
    Prop where
  renames : ∀ n, σ (ids n) = ids' n
  supplied : ∀ n, ids n ∈ names
  injective : Set.InjOn σ names
  blank : σ "" = ""

namespace ImportState

/-- The simulation relation of two runs: as many ids drawn, and related
documents. -/
structure RenamedOn (names : Set String) (σ : String → String) (s s' : ImportState) : Prop where
  issued : s'.issued = s.issued
  document : s.document.RenamedOn names σ s'.document

namespace RenamedOn

variable {ids ids' : Nat → String} {names : Set String} {σ : String → String}
  {s s' : ImportState}

theorem edit (related : s.RenamedOn names σ s') {f f' : DocumentData → DocumentData}
    (document : (f s.document).RenamedOn names σ (f' s'.document)) :
    (s.edit f).RenamedOn names σ (s'.edit f') :=
  ⟨related.issued, document⟩

theorem next (related : s.RenamedOn names σ s') :
    ({ s with issued := s.issued + 1 } : ImportState).RenamedOn names σ
      { s' with issued := s'.issued + 1 } :=
  ⟨by simp [related.issued], related.document⟩

theorem nextId (renamer : Renaming ids ids' names σ) (related : s.RenamedOn names σ s') :
    ids' s'.issued = σ (ids s.issued) := by
  rw [related.issued, renamer.renames]

theorem idOrGenerate (renamer : Renaming ids ids' names σ) (related : s.RenamedOn names σ s')
    {blockId : Option String} (named : ∀ id ∈ blockId, id ∈ names) :
    ∃ t', MdImporter.idOrGenerate ids' (blockId.map σ) s' =
        (σ (MdImporter.idOrGenerate ids blockId s).1, t') ∧
      (MdImporter.idOrGenerate ids blockId s).2.RenamedOn names σ t' ∧
      (MdImporter.idOrGenerate ids blockId s).1 ∈ names := by
  cases blockId with
  | some id => exact ⟨s', rfl, related, named id rfl⟩
  | none =>
      refine ⟨_, ?_, related.next, renamer.supplied _⟩
      simp only [MdImporter.idOrGenerate, generateId, Option.map_none', related.nextId renamer]

end RenamedOn

end ImportState

/-- Two results, one from each run: the same fault, or related values. -/
def Simulates {ε α β : Type} (R : α → β → Prop) : Except ε α → Except ε β → Prop
  | .ok a, .ok b => R a b
  | .error e, .error e' => e = e'
  | _, _ => False

theorem Simulates.bind {ε α β γ δ : Type} {R : α → β → Prop} {R' : γ → δ → Prop}
    {x : Except ε α} {x' : Except ε β} {k : α → Except ε γ} {k' : β → Except ε δ}
    (first : Simulates R x x') (rest : ∀ a b, R a b → Simulates R' (k a) (k' b)) :
    Simulates R' (x >>= k) (x' >>= k') := by
  cases x with
  | error e =>
      cases x' with
      | error e' => exact (first : e = e')
      | ok _ => exact first.elim
  | ok a =>
      cases x' with
      | error _ => exact first.elim
      | ok b => exact rest a b first

/-- The callout or toggle whose inner loop is open, with its id renamed. -/
def Pending.rename (σ : String → String) : Pending → Pending
  | .none => .none
  | .callout calloutId => .callout (σ calloutId)
  | .toggle toggleId summaryWritten => .toggle (σ toggleId) summaryWritten

/-- The id of the open callout or toggle is one of `names`. -/
def Pending.Named (names : Set String) : Pending → Prop
  | .none => True
  | .callout calloutId => calloutId ∈ names
  | .toggle toggleId _ => toggleId ∈ names

theorem named_some {names : Set String} {x : String} (named : x ∈ names) :
    ∀ y ∈ some x, y ∈ names :=
  fun _ same => Option.mem_some_iff.mp same ▸ named

theorem named_none {names : Set String} : ∀ y ∈ (none : Option String), y ∈ names :=
  fun _ missing => absurd missing (Option.not_mem_none _)

section Walk

variable (toMdast : String → Option (List Node)) {ids ids' : Nat → String}
  {names : Set String} {σ : String → String}

theorem ImportState.RenamedOn.processImage (renamer : Renaming ids ids' names σ)
    {s s' : ImportState} (related : s.RenamedOn names σ s') (url : String) {parent : String}
    (named : parent ∈ names) :
    (MdImporter.processImage ids s url parent).RenamedOn names σ
      (MdImporter.processImage ids' s' url (σ parent)) := by
  simp only [MdImporter.processImage, generateId, related.nextId renamer]
  exact related.next.edit (related.document.registerBlock renamer.injective
    (renamer.supplied _) (named_some named) (createImageBlock_rename renamer.blank _ _ _))

section Statements

variable (ids ids' : Nat → String) (names : Set String) (σ : String → String)

/-- `processMdastNode` with each supply. -/
def NodeRenamed (fuel : Nat) : Prop :=
  ∀ s s' node parentId blockId listType startNumber, s.RenamedOn names σ s' →
    (∀ parent ∈ parentId, parent ∈ names) → (∀ id ∈ blockId, id ∈ names) →
    Simulates (ImportState.RenamedOn names σ)
      (processMdastNode toMdast ids fuel s node parentId blockId listType startNumber)
      (processMdastNode toMdast ids' fuel s' node (parentId.map σ) (blockId.map σ) listType
        startNumber)

def ContentRenamed (fuel : Nat) : Prop :=
  ∀ s s' node id listType startNumber, s.RenamedOn names σ s' → id ∈ names →
    Simulates (ImportState.RenamedOn names σ)
      (processBlockContent toMdast ids fuel s node id listType startNumber)
      (processBlockContent toMdast ids' fuel s' node (σ id) listType startNumber)

def ChildrenRenamed (fuel : Nat) : Prop :=
  ∀ s s' parentId pending children listType startNumber, s.RenamedOn names σ s' →
    (∀ parent ∈ parentId, parent ∈ names) → pending.Named names →
    Simulates (ImportState.RenamedOn names σ)
      (processMdastNodeChildren toMdast ids fuel s parentId pending children listType
        startNumber)
      (processMdastNodeChildren toMdast ids' fuel s' (parentId.map σ) (pending.rename σ)
        children listType startNumber)

def ToggleBodyRenamed (fuel : Nat) : Prop :=
  ∀ s s' toggleId body, s.RenamedOn names σ s' → toggleId ∈ names →
    Simulates (ImportState.RenamedOn names σ)
      (processToggleBody toMdast ids fuel s toggleId body)
      (processToggleBody toMdast ids' fuel s' (σ toggleId) body)

def RowsRenamed (fuel : Nat) : Prop :=
  ∀ s s' tableId align rowIndex rows, s.RenamedOn names σ s' → tableId ∈ names →
    Simulates (ImportState.RenamedOn names σ)
      (processTableRows toMdast ids fuel s tableId align rowIndex rows)
      (processTableRows toMdast ids' fuel s' (σ tableId) align rowIndex rows)

def RowRenamed (fuel : Nat) : Prop :=
  ∀ s s' cells rowIndex tableId align, s.RenamedOn names σ s' → tableId ∈ names →
    Simulates (ImportState.RenamedOn names σ)
      (processTableRow toMdast ids fuel s cells rowIndex tableId align)
      (processTableRow toMdast ids' fuel s' cells rowIndex (σ tableId) align)

def CellsRenamed (fuel : Nat) : Prop :=
  ∀ s s' cells rowId rowIndex colIndex align, s.RenamedOn names σ s' → rowId ∈ names →
    Simulates (ImportState.RenamedOn names σ)
      (processTableCells toMdast ids fuel s cells rowId rowIndex colIndex align)
      (processTableCells toMdast ids' fuel s' cells (σ rowId) rowIndex colIndex align)

def ColumnsRenamed (fuel : Nat) : Prop :=
  ∀ s s' columnsId bodyRows colIndices, s.RenamedOn names σ s' → columnsId ∈ names →
    Simulates (ImportState.RenamedOn names σ)
      (processNotionColumns toMdast ids fuel s columnsId bodyRows colIndices)
      (processNotionColumns toMdast ids' fuel s' (σ columnsId) bodyRows colIndices)

def ColumnRowsRenamed (fuel : Nat) : Prop :=
  ∀ s s' columnId colIndex rows, s.RenamedOn names σ s' → columnId ∈ names →
    Simulates (ImportState.RenamedOn names σ)
      (processNotionColumnRows toMdast ids fuel s columnId colIndex rows)
      (processNotionColumnRows toMdast ids' fuel s' (σ columnId) colIndex rows)

end Statements

section Steps

variable {toMdast} {fuel : Nat}

theorem nodeRenamed_succ (renamer : Renaming ids ids' names σ)
    (children : ChildrenRenamed toMdast ids ids' names σ fuel)
    (content : ContentRenamed toMdast ids ids' names σ fuel)
    (columns : ColumnsRenamed toMdast ids ids' names σ fuel) :
    NodeRenamed toMdast ids ids' names σ (fuel + 1) := by
  intro s s' n parentId blockId listType startNumber related parentNamed blockNamed
  rw [processMdastNode.eq_2, processMdastNode.eq_2]
  by_cases inline : n.isInlineNode
  · simp only [inline, ↓reduceIte]
    exact related.edit
      (related.document.processInlineMdastNode renamer.injective n parentNamed)
  by_cases closing : isClosingSentinel n
  · simp only [inline, closing, ↓reduceIte]
    exact related
  simp only [inline, closing, Bool.false_eq_true, ↓reduceIte]
  cases listed : n.getMdastNodeInfo with
  | some info =>
      obtain ⟨items, listType', startNumber'⟩ := info
      exact children _ _ _ _ _ _ _ related parentNamed trivial
  | none =>
      obtain ⟨url, found⟩ := imageOf_ok n
      simp only [found, bind, Except.bind]
      rcases url with _ | url <;> rcases parentId with _ | parent
      all_goals try exact related.processImage renamer _ (parentNamed _ rfl)
      all_goals
        obtain ⟨t', generated, relatedNext, idNamed⟩ :=
          related.idOrGenerate renamer blockNamed
        simp only [Option.map_none', Option.map_some', generated]
        split
        · exact columns _ _ _ _ _ (relatedNext.edit (relatedNext.document.registerBlock
            renamer.injective idNamed parentNamed
            (containerBlock_getD_rename renamer.blank _ _ _ _))) idNamed
        · exact content _ _ _ _ _ _ (relatedNext.edit (relatedNext.document.registerBlock
            renamer.injective idNamed parentNamed
            (createBlock_rename renamer.blank _ _ _ _ _))) idNamed

theorem contentRenamed_succ (renamer : Renaming ids ids' names σ)
    (children : ChildrenRenamed toMdast ids ids' names σ fuel)
    (rows : RowsRenamed toMdast ids ids' names σ fuel) :
    ContentRenamed toMdast ids ids' names σ (fuel + 1) := by
  intro s s' n id listType startNumber related named
  rw [processBlockContent_succ, processBlockContent_succ]
  cases blockContent n with
  | children items => exact children _ _ _ _ _ _ _ related (named_some named) trivial
  | headed head rest =>
      cases head with
      | some para =>
          exact .bind (children _ _ _ _ _ _ _ related (named_some named) trivial)
            fun _ _ walked => children _ _ _ _ _ _ _ walked (named_some named) trivial
      | none =>
          exact .bind related
            fun _ _ walked => children _ _ _ _ _ _ _ walked (named_some named) trivial
  | done => exact related
  | text value =>
      exact related.edit (related.document.insertDeltaToTextMap renamer.injective named _)
  | rows align tableRows => exact rows _ _ _ _ _ _ related named
  | unreachable => rfl

theorem childrenRenamed_succ (renamer : Renaming ids ids' names σ)
    (node : NodeRenamed toMdast ids ids' names σ fuel)
    (children : ChildrenRenamed toMdast ids ids' names σ fuel)
    (body : ToggleBodyRenamed toMdast ids ids' names σ fuel) :
    ChildrenRenamed toMdast ids ids' names σ (fuel + 1) := by
  intro s s' parentId pending siblings listType startNumber related parentNamed pendingNamed
  cases siblings with
  | nil => cases pending <;> exact related
  | cons n rest =>
      cases pending with
      | none =>
          simp only [processMdastNodeChildren]
          cases classifySibling n with
          | closing => exact children _ _ _ _ _ _ _ related parentNamed trivial
          | aside callout =>
              simp only [generateId]
              rw [related.nextId renamer]
              have opened := (related.document.insertBlock renamer.injective
                (renamer.supplied s.issued)
                (calloutBlock_rename renamer.blank (ids s.issued) callout.icon
                  parentId)).updateChildrenMap renamer.injective parentNamed (ids s.issued)
              exact children _ _ _ _ _ _ _ ((related.next.edit opened).edit
                (opened.insertMarkdownAsInlineDelta renamer.injective toMdast
                  (renamer.supplied _) _)) parentNamed (renamer.supplied _)
          | details value =>
              obtain ⟨parsed, found⟩ := parseDetailsHtml_ok value
              simp only [generateId, found, bind, Except.bind, pure, Except.pure]
              rw [related.nextId renamer]
              have opened := (related.document.insertBlock renamer.injective
                (renamer.supplied s.issued)
                (containerBlock_getD_rename renamer.blank .toggleList (ids s.issued)
                  HashMap.empty parentId)).updateChildrenMap
                renamer.injective parentNamed (ids s.issued)
              cases parsed with
              | some details =>
                  exact .bind (body _ _ _ _ ((related.next.edit opened).edit
                    (opened.insertMarkdownAsInlineDelta renamer.injective toMdast
                      (renamer.supplied _) _)) (renamer.supplied _))
                    fun _ _ walked =>
                      children _ _ _ _ _ _ _ walked parentNamed (renamer.supplied _)
              | none =>
                  exact children _ _ _ _ _ _ _ (related.next.edit opened) parentNamed
                    (renamer.supplied _)
          | other =>
              exact .bind (node _ _ _ _ _ _ _ related parentNamed named_none)
                fun _ _ walked => children _ _ _ _ _ _ _ walked parentNamed trivial
      | callout calloutId =>
          simp only [processMdastNodeChildren]
          by_cases closed : isHtmlTag "</aside>" n
          · simp only [closed, ↓reduceIte]
            exact children _ _ _ _ _ _ _ related parentNamed trivial
          · simp only [closed, Bool.false_eq_true, ↓reduceIte]
            exact .bind (node _ _ _ _ _ _ _ related (named_some pendingNamed) named_none)
              fun _ _ walked => children _ _ _ _ _ _ _ walked parentNamed pendingNamed
      | toggle toggleId summaryWritten =>
          simp only [processMdastNodeChildren]
          cases classifyToggleSibling summaryWritten n with
          | close => exact children _ _ _ _ _ _ _ related parentNamed trivial
          | summary value =>
              obtain ⟨extracted, found⟩ := extractTagContent_ok value "summary"
              simp only [found, bind, Except.bind]
              cases extracted with
              | some pair =>
                  exact .bind (body _ _ _ _ (related.edit
                    (related.document.insertMarkdownAsInlineDelta renamer.injective toMdast
                      pendingNamed _)) pendingNamed)
                    fun _ _ walked => children _ _ _ _ _ _ _ walked parentNamed pendingNamed
              | none => exact children _ _ _ _ _ _ _ related parentNamed pendingNamed
          | other =>
              exact .bind (node _ _ _ _ _ _ _ related (named_some pendingNamed) named_none)
                fun _ _ walked => children _ _ _ _ _ _ _ walked parentNamed pendingNamed

theorem toggleBodyRenamed_succ (children : ChildrenRenamed toMdast ids ids' names σ fuel) :
    ToggleBodyRenamed toMdast ids ids' names σ (fuel + 1) := by
  intro s s' toggleId text related named
  simp only [processToggleBody]
  by_cases blank : (trim text).isEmpty
  · simp only [blank, ↓reduceIte]
    exact related
  simp only [blank, Bool.false_eq_true, ↓reduceIte]
  cases toMdast text with
  | some items => exact children _ _ _ _ _ _ _ related (named_some named) trivial
  | none => exact related

theorem rowsRenamed_succ (row : RowRenamed toMdast ids ids' names σ fuel)
    (rows : RowsRenamed toMdast ids ids' names σ fuel) :
    RowsRenamed toMdast ids ids' names σ (fuel + 1) := by
  intro s s' tableId align rowIndex tableRows related named
  cases tableRows with
  | nil => exact related
  | cons first rest =>
      rw [processTableRows_succ, processTableRows_succ]
      cases tableRowOf first with
      | some cells =>
          exact .bind (row _ _ _ _ _ _ related named)
            fun _ _ walked => rows _ _ _ _ _ _ walked named
      | none => exact .bind related fun _ _ walked => rows _ _ _ _ _ _ walked named

theorem rowRenamed_succ (renamer : Renaming ids ids' names σ)
    (cells : CellsRenamed toMdast ids ids' names σ fuel) :
    RowRenamed toMdast ids ids' names σ (fuel + 1) := by
  intro s s' tableCells rowIndex tableId align related named
  simp only [processTableRow, generateId]
  rw [related.nextId renamer]
  exact cells _ _ _ _ _ _ _ (related.next.edit (related.document.registerBlock
    renamer.injective (renamer.supplied _) (named_some named)
    (createSimpleTableRowBlock_rename _ _))) (renamer.supplied _)

theorem cellsRenamed_succ (renamer : Renaming ids ids' names σ)
    (children : ChildrenRenamed toMdast ids ids' names σ fuel)
    (cells : CellsRenamed toMdast ids ids' names σ fuel) :
    CellsRenamed toMdast ids ids' names σ (fuel + 1) := by
  intro s s' rowCells rowId rowIndex colIndex align related named
  cases rowCells with
  | nil => exact related
  | cons first rest =>
      rw [processTableCells_succ, processTableCells_succ]
      cases tableCellOf first with
      | some cellChildren =>
        simp only [generateId, createParagraphBlock, ImportState.edit_issued]
        have cellMade := related.document.registerBlock renamer.injective
          (renamer.supplied s.issued) (named_some named)
          (createSimpleTableCellBlock_rename (ids s.issued) rowId rowIndex colIndex align)
        have secondId : ids' (s'.issued + 1) = σ (ids (s.issued + 1)) := by
          rw [related.issued, renamer.renames]
        rw [related.nextId renamer, secondId]
        exact .bind (children _ _ _ _ _ _ _ ((related.next.edit cellMade).next.edit
          (cellMade.registerBlock renamer.injective (renamer.supplied _)
            (named_some (renamer.supplied _)) (createBlock_rename renamer.blank _ _ _ _ _)))
          (named_some (renamer.supplied _)) trivial)
          fun _ _ walked => cells _ _ _ _ _ _ _ walked named
      | none => exact .bind related fun _ _ walked => cells _ _ _ _ _ _ _ walked named

theorem columnsRenamed_succ (renamer : Renaming ids ids' names σ)
    (columnRows : ColumnRowsRenamed toMdast ids ids' names σ fuel)
    (columns : ColumnsRenamed toMdast ids ids' names σ fuel) :
    ColumnsRenamed toMdast ids ids' names σ (fuel + 1) := by
  intro s s' columnsId bodyRows colIndices related named
  cases colIndices with
  | nil => exact related
  | cons colIndex rest =>
      simp only [processNotionColumns, generateId]
      rw [related.nextId renamer]
      exact .bind (columnRows _ _ _ _ _ (related.next.edit (related.document.registerBlock
        renamer.injective (renamer.supplied _) (named_some named)
        (containerBlock_rename _ _ _ _))) (renamer.supplied _))
        fun _ _ walked => columns _ _ _ _ _ walked named

theorem columnRowsRenamed_succ (renamer : Renaming ids ids' names σ)
    (children : ChildrenRenamed toMdast ids ids' names σ fuel)
    (columnRows : ColumnRowsRenamed toMdast ids ids' names σ fuel) :
    ColumnRowsRenamed toMdast ids ids' names σ (fuel + 1) := by
  intro s s' columnId colIndex bodyRows related named
  cases bodyRows with
  | nil => exact related
  | cons first rest =>
      simp only [processNotionColumnRows]
      split
      · split
        · split
          · exact .bind related fun _ _ walked => columnRows _ _ _ _ _ walked named
          · simp only [createParagraphBlock, generateId]
            rw [related.nextId renamer]
            exact .bind (children _ _ _ _ _ _ _ (related.next.edit
              (related.document.registerBlock renamer.injective (renamer.supplied _)
                (named_some named) (createBlock_rename renamer.blank _ _ _ _ _)))
              (named_some (renamer.supplied _)) trivial)
              fun _ _ walked => columnRows _ _ _ _ _ walked named
        · exact .bind related fun _ _ walked => columnRows _ _ _ _ _ walked named
      · exact .bind related fun _ _ walked => columnRows _ _ _ _ _ walked named

end Steps

/-- Every call of the walker, run with each supply on related states and
renamed arguments, ends in the same fault or in related states. -/
theorem walk_renamed (renamer : Renaming ids ids' names σ) (fuel : Nat) :
    NodeRenamed toMdast ids ids' names σ fuel ∧ ContentRenamed toMdast ids ids' names σ fuel ∧
      ChildrenRenamed toMdast ids ids' names σ fuel ∧
      ToggleBodyRenamed toMdast ids ids' names σ fuel ∧
      RowsRenamed toMdast ids ids' names σ fuel ∧ RowRenamed toMdast ids ids' names σ fuel ∧
      CellsRenamed toMdast ids ids' names σ fuel ∧
      ColumnsRenamed toMdast ids ids' names σ fuel ∧
      ColumnRowsRenamed toMdast ids ids' names σ fuel := by
  induction fuel with
  | zero => refine ⟨?_, ?_, ?_, ?_, ?_, ?_, ?_, ?_, ?_⟩ <;> intro s <;> intros <;> rfl
  | succ fuel inductionHypothesis =>
      obtain ⟨node, content, children, body, rows, row, cells, columns, columnRows⟩ :=
        inductionHypothesis
      exact ⟨nodeRenamed_succ renamer children content columns,
        contentRenamed_succ renamer children rows,
        childrenRenamed_succ renamer node children body, toggleBodyRenamed_succ children,
        rowsRenamed_succ row rows, rowRenamed_succ renamer cells,
        cellsRenamed_succ renamer children cells, columnsRenamed_succ renamer columnRows columns,
        columnRowsRenamed_succ renamer children columnRows⟩

end Walk

theorem DocumentData.RenamedOn.initial {names : Set String} {σ : String → String}
    {pageId : String} (fixed : σ pageId = pageId) :
    (DocumentData.initial pageId).RenamedOn names σ (DocumentData.initial pageId) :=
  { pageId := fixed.symm
    blocks := rfl
    childrenMap := rfl
    textMap := rfl
    blocksNamed := fun _ member => absurd member (List.not_mem_nil _)
    childrenNamed := fun _ member => absurd member (List.not_mem_nil _)
    textNamed := fun _ member => absurd member (List.not_mem_nil _) }

/-- The names a run with fresh ids can use as keys: the page id and the
supply's ids; and the empty string, which the walker writes itself. -/
def runNames (ids : Nat → String) (pageId : String) : Set String :=
  {name | name = pageId ∨ name = "" ∨ name ∈ Set.range ids}

theorem exists_renaming {ids ids' : Nat → String} {pageId : String}
    (fresh : FreshIds ids pageId) (fresh' : FreshIds ids' pageId) (nonempty : ∀ n, ids n ≠ "")
    (nonempty' : ∀ n, ids' n ≠ "") :
    ∃ σ, σ pageId = pageId ∧ Renaming ids ids' (runNames ids pageId) σ := by
  classical
  let σ : String → String := fun name =>
    if name ∈ Set.range ids then ids' (Function.invFun ids name) else name
  have renames : ∀ n, σ (ids n) = ids' n := fun n => by
    simp only [σ, Set.mem_range_self, ↓reduceIte, Function.leftInverse_invFun fresh.injective n]
  have unchanged : ∀ name, name ∉ Set.range ids → σ name = name :=
    fun _ outside => if_neg outside
  have pageFixed : σ pageId = pageId := unchanged _ fun ⟨n, same⟩ => fresh.ne_pageId n same
  have blank : σ "" = "" := unchanged _ fun ⟨n, same⟩ => nonempty n same
  let τ : String → String := fun name =>
    if name ∈ Set.range ids' then ids (Function.invFun ids' name) else name
  have back : ∀ n, τ (ids' n) = ids n := fun n => by
    simp only [τ, Set.mem_range_self, ↓reduceIte, Function.leftInverse_invFun fresh'.injective n]
  have returned : Set.LeftInvOn τ σ (runNames ids pageId) := by
    rintro name (rfl | rfl | ⟨n, rfl⟩)
    · rw [pageFixed]
      exact if_neg fun ⟨n, same⟩ => fresh'.ne_pageId n same
    · rw [blank]
      exact if_neg fun ⟨n, same⟩ => nonempty' n same
    · rw [renames, back]
  exact ⟨σ, pageFixed, renames, fun n => Or.inr (Or.inr ⟨n, rfl⟩), returned.injOn, blank⟩

/-- Two runs of `import` on one input, with fresh id supplies that never hand
out the empty string, end alike: in the same fault, in the same error, or in
snapshots one of which is the other with its ids renamed, by a map that fixes
the page id and is injective on the block ids and the empty string. -/
theorem importMd_renamed (importer : MDImporter) (ids ids' : Nat → String) (fuel : Nat)
    (pageId md : String) (fresh : FreshIds ids pageId) (fresh' : FreshIds ids' pageId)
    (nonempty : ∀ n, ids n ≠ "") (nonempty' : ∀ n, ids' n ≠ "") :
    ∃ σ : String → String, σ pageId = pageId ∧
      Simulates (Simulates fun d d' =>
          Set.InjOn σ {key | key = "" ∨ key ∈ d.blocks.keys} ∧ d.Renamed σ d')
        (importer.importMd ids fuel pageId md) (importer.importMd ids' fuel pageId md) := by
  obtain ⟨σ, pageFixed, renamer⟩ := exists_renaming fresh fresh' nonempty nonempty'
  refine ⟨σ, pageFixed, ?_⟩
  cases fuel with
  | zero =>
      rw [importMd_zero, importMd_zero]
      cases importer.toMdast md <;> rfl
  | succ fuel =>
      rw [importMd_succ, importMd_succ]
      cases importer.toMdast md with
      | none => rfl
      | some children =>
          have page := (DocumentData.RenamedOn.initial pageFixed).registerBlock renamer.injective
            (Or.inl rfl) named_none (createBlock_rename renamer.blank pageId (.root children) none
              none none)
          rw [pageFixed] at page
          have walked := (walk_renamed importer.toMdast renamer fuel).2.1
            (pageState pageId children) (pageState pageId children) (.root children) pageId none
            none ⟨rfl, page⟩ (Or.inl rfl)
          rw [pageFixed] at walked
          refine .bind walked fun s s' related =>
            ⟨renamer.injective.mono ?_, related.document.1⟩
          rintro key (rfl | member)
          · exact .inr (.inl rfl)
          · exact related.document.blocksNamed key member

theorem importMd_renamed_shifted :
    ∃ σ : String → String, σ "P" = "P" ∧
      Simulates (Simulates fun d d' =>
          Set.InjOn σ {key | key = "" ∨ key ∈ d.blocks.keys} ∧ d.Renamed σ d')
        ((⟨fun _ => some [.paragraph [.text "a"]]⟩ : MDImporter).importMd
          (fun n => ⟨List.replicate (n + 1) 'b'⟩) 10 "P" "a")
        ((⟨fun _ => some [.paragraph [.text "a"]]⟩ : MDImporter).importMd
          (fun n => ⟨List.replicate (n + 2) 'b'⟩) 10 "P" "a") :=
  importMd_renamed _ _ _ 10 "P" "a" (freshIds_replicate 1) (freshIds_replicate 2)
    (fun _ same => by simpa using congrArg String.length same)
    (fun _ same => by simpa using congrArg String.length same)

theorem importMd_emptyId_unrenamable :
    FreshIds (fun n => ⟨List.replicate n 'b'⟩) "P" ∧
      FreshIds (fun n => ⟨List.replicate (n + 1) 'b'⟩) "P" ∧
      ∃ d d', (⟨fun _ => some [.paragraph [.text "a"]]⟩ : MDImporter).importMd
            (fun n => ⟨List.replicate n 'b'⟩) 10 "P" "a" = .ok (.ok d) ∧
          (⟨fun _ => some [.paragraph [.text "a"]]⟩ : MDImporter).importMd
            (fun n => ⟨List.replicate (n + 1) 'b'⟩) 10 "P" "a" = .ok (.ok d') ∧
          ∀ σ, ¬ d.Renamed σ d' := by
  refine ⟨freshIds_replicate 0, freshIds_replicate 1, _, _, rfl, rfl, fun σ renamed => ?_⟩
  have keys : ["P", "b"] = [σ "P", σ ""] := renamed.blocks.keys_eq
  have parents : ["", "P"] = [σ "", σ "P"] :=
    congrArg (List.map fun entry : String × Block => entry.2.parent) renamed.blocks
  simp only [List.cons.injEq] at keys parents
  exact absurd (keys.2.1.trans parents.1.symm) (by decide)

end MdImporter
