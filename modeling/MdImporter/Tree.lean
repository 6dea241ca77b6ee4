import MdImporter.Safety

/-!
# The snapshot is a tree

With an id supply whose ids are fresh, every snapshot `import` returns is one
tree of blocks rooted at the page: each block other than the page is listed
exactly once, under its own `parent`, and text is attributed only to
text-bearing blocks.

`ImportState.WellFormed` is the invariant of a walk: the blocks are the page
and the ids drawn so far, in order, each with a parent made before it, and
the children lists are a permutation of the drawn ids. It holds once the page
block is made (`pageState_wellFormed`), each operation of the walker keeps it
(`WellFormed.register`, `WellFormed.textOnly`), so every call keeps it
(`walk_wellFormed`); `WellFormed.treeShaped` reads the tree off it.
-/

namespace MdImporter

set_option autoImplicit false

/-- An id supply as `generate_id` is assumed to be: its ids are pairwise
distinct and differ from the page id. -/
structure FreshIds (ids : Nat → String) (pageId : String) : Prop where
  injective : Function.Injective ids
  ne_pageId : ∀ k, ids k ≠ pageId

namespace DocumentData

/-- Every entry of every children list, list after list. -/
def allChildren (d : DocumentData) : List String :=
  d.meta.childrenMap.entries.flatMap Prod.snd

/-- The `parent` field of a block; `""` for an id without a block. -/
def parentOf (d : DocumentData) (id : String) : String :=
  ((d.blocks.get? id).map Block.parent).getD ""

/-- The snapshot is one tree of blocks rooted at the page. -/
structure TreeShaped (d : DocumentData) : Prop where
  page_root : ∃ block, d.blocks.get? d.pageId = some block ∧ block.parent = ""
  page_unlisted : d.pageId ∉ d.allChildren
  id_eq_key : ∀ key block, d.blocks.get? key = some block → block.id = key
  childrenMap_keys : ∀ key ∈ d.meta.childrenMap.keys, key ∈ d.blocks.keys
  children_known : ∀ key children, d.meta.childrenMap.get? key = some children →
    ∀ child ∈ children, child ∈ d.blocks.keys
  listed_once : ∀ key block, d.blocks.get? key = some block → key ≠ d.pageId →
    d.allChildren.count key = 1 ∧
      ∃ children, d.meta.childrenMap.get? block.parent = some children ∧ key ∈ children
  reaches_page : ∀ key ∈ d.blocks.keys, ∃ steps, d.parentOf^[steps] key = d.pageId
  text_owner : ∀ key ∈ d.meta.textMap.keys, ∃ block, d.blocks.get? key = some block ∧
    block.externalId = some key ∧ block.externalType = some "text"

/-- `d'` differs from `d` at most in the text of block `key`. -/
structure TextEdit (key : String) (d d' : DocumentData) : Prop where
  pageId_eq : d'.pageId = d.pageId
  blocks_eq : d'.blocks = d.blocks
  childrenMap_eq : d'.meta.childrenMap = d.meta.childrenMap
  textMap_keys : ∀ k ∈ d'.meta.textMap.keys, k = key ∨ k ∈ d.meta.textMap.keys

namespace TextEdit

variable {key : String}

theorem refl (d : DocumentData) : TextEdit key d d :=
  ⟨rfl, rfl, rfl, fun _ found => .inr found⟩

theorem trans {d d' d'' : DocumentData} (first : TextEdit key d d')
    (second : TextEdit key d' d'') : TextEdit key d d'' where
  pageId_eq := second.pageId_eq.trans first.pageId_eq
  blocks_eq := second.blocks_eq.trans first.blocks_eq
  childrenMap_eq := second.childrenMap_eq.trans first.childrenMap_eq
  textMap_keys k found := (second.textMap_keys k found).elim .inl (first.textMap_keys k)

theorem foldl {β : Type} {step : DocumentData → β → DocumentData}
    (each : ∀ d b, TextEdit key d (step d b)) (items : List β) (d : DocumentData) :
    TextEdit key d (items.foldl step d) := by
  induction items generalizing d with
  | nil => exact refl d
  | cons item rest inductionHypothesis => exact (each d item).trans (inductionHypothesis _)

theorem insertDeltaToTextMap (d : DocumentData) (delta : Delta) :
    TextEdit key d (d.insertDeltaToTextMap key delta) :=
  ⟨rfl, rfl, rfl, fun k found => by simpa [DocumentData.insertDeltaToTextMap] using found⟩

theorem processInlineMdastNode (d : DocumentData) (node : Node) :
    TextEdit key d (d.processInlineMdastNode node (some key)) :=
  insertDeltaToTextMap _ _

theorem insertInlineChild (d : DocumentData) (child : Node) :
    TextEdit key d (d.insertInlineChild key child) := by
  unfold DocumentData.insertInlineChild DocumentData.processInlineMdastNode
  split <;> exact insertDeltaToTextMap _ _

theorem insertMarkdownAsInlineDelta (toMdast : String → Option (List Node)) (d : DocumentData)
    (markdown : String) : TextEdit key d (d.insertMarkdownAsInlineDelta toMdast key markdown) := by
  dsimp only [DocumentData.insertMarkdownAsInlineDelta]
  split
  · exact refl d
  split
  · exact insertDeltaToTextMap _ _
  refine foldl (fun d child => ?_) _ _
  split <;> first
    | exact foldl (fun d c => insertInlineChild d c) _ _
    | exact insertDeltaToTextMap _ _

end TextEdit

end DocumentData

/-- A callout or toggle block: the two kinds the walker makes without
`ensure_children_map_entry`. -/
def Block.isCalloutOrToggle (block : Block) : Bool :=
  block.ty == BlockType.callout.toString || block.ty == BlockType.toggleList.toString

theorem createBlock_ordinary (id : String) (node : Node) (parentId : Option String)
    (listType : Option Node.ListType) (startNumber : Option Nat) :
    (createBlock id node parentId listType startNumber).isCalloutOrToggle = false := by
  simp only [Block.isCalloutOrToggle, createBlock, mdastNodeTypeToBlockType]
  split <;> try split
  all_goals rfl

namespace ImportState

/-- `id` names a block whose text is kept under its own id. -/
def TextBlock (s : ImportState) (id : String) : Prop :=
  ∃ block, s.document.blocks.get? id = some block ∧ block.externalId = some id ∧
    block.externalType = some "text"

/-- The blocks of `s` are kept, unchanged, by `s'`. -/
def Extends (s s' : ImportState) : Prop :=
  s.document.blocks.entries <+: s'.document.blocks.entries

theorem Extends.refl (s : ImportState) : s.Extends s := List.prefix_refl _

theorem Extends.trans {s s' s'' : ImportState} (first : s.Extends s') (second : s'.Extends s'') :
    s.Extends s'' := List.IsPrefix.trans first second

theorem TextBlock.extend {s s' : ImportState} {id : String} (owner : s.TextBlock id)
    (grows : s.Extends s') : s'.TextBlock id := by
  obtain ⟨block, found, external⟩ := owner
  exact ⟨block, HashMap.get?_of_prefix grows found, external⟩

theorem TextBlock.mem_keys {s : ImportState} {id : String} (owner : s.TextBlock id) :
    id ∈ s.document.blocks.keys :=
  HashMap.mem_keys_of_get? owner.choose_spec.1

variable (ids : Nat → String) (pageId : String)

/-- The invariant of a walk from `import`'s page block. -/
structure WellFormed (s : ImportState) : Prop where
  pageId_eq : s.document.pageId = pageId
  keys_eq : s.document.blocks.keys = pageId :: (List.range s.issued).map ids
  id_eq_key : ∀ key block, s.document.blocks.get? key = some block → block.id = key
  page_root : ∃ block, s.document.blocks.get? pageId = some block ∧ block.parent = ""
  parent_before : ∀ k < s.issued, ∃ block, s.document.blocks.get? (ids k) = some block ∧
    (block.parent = pageId ∨ ∃ j < k, block.parent = ids j)
  childrenMap_keys : ∀ key ∈ s.document.meta.childrenMap.keys, key ∈ s.document.blocks.keys
  children_parent : ∀ key children, s.document.meta.childrenMap.get? key = some children →
    ∀ child ∈ children, ∃ block, s.document.blocks.get? child = some block ∧ block.parent = key
  children_perm : s.document.allChildren.Perm ((List.range s.issued).map ids)
  text_owner : ∀ key ∈ s.document.meta.textMap.keys, ∃ block,
    s.document.blocks.get? key = some block ∧ block.externalId = some key ∧
      block.externalType = some "text"
  unlisted_fragment : ∀ key block, s.document.blocks.get? key = some block →
    s.document.meta.childrenMap.get? key = none → block.isCalloutOrToggle = true
  fragment_listed_nonempty : ∀ key block, s.document.blocks.get? key = some block →
    block.isCalloutOrToggle = true → s.document.meta.childrenMap.get? key ≠ some []

/-- `s'` is well formed and keeps the blocks of `s`. -/
def Grows (s s' : ImportState) : Prop :=
  s'.WellFormed ids pageId ∧ s.Extends s'

/-- `children` holds the lists of `childrenMap`, and at most an empty list for
`id`, which `childrenMap` lacks: the children map after
`ensure_children_map_entry` of a new block, or without it. -/
structure EmptyEntry (id : String) (childrenMap children : HashMap (List String)) : Prop where
  get?_ne : ∀ k, k ≠ id → children.get? k = childrenMap.get? k
  get?_self : ∀ l, children.get? id = some l → l = []
  keys : ∀ k ∈ children.keys, k = id ∨ k ∈ childrenMap.keys
  flatten : children.entries.flatMap Prod.snd = childrenMap.entries.flatMap Prod.snd

namespace EmptyEntry

variable {id : String} {childrenMap : HashMap (List String)}

theorem absent (missing : id ∉ childrenMap.keys) : EmptyEntry id childrenMap childrenMap where
  get?_ne _ _ := rfl
  get?_self l found := absurd ((HashMap.mem_keys_iff_get? _ _).mpr (by simp [found])) missing
  keys _ found := .inr found
  flatten := rfl

theorem ensure (missing : id ∉ childrenMap.keys) :
    EmptyEntry id childrenMap (childrenMap.upsert id [] fun l => l) where
  get?_ne _ different := HashMap.get?_upsert_ne _ different _ _
  get?_self l found := by
    rw [HashMap.get?_upsert_self, Option.some.injEq] at found
    rw [← found, Option.getD_eq_iff]
    exact .inr ⟨Option.not_isSome_iff_eq_none.mp
      (mt (HashMap.mem_keys_iff_get? _ _).mpr missing), rfl⟩
  keys k found := (HashMap.mem_keys_upsert _ _ _ _ _).mp found
  flatten := HashMap.flatMap_upsert_id _ _

end EmptyEntry

namespace WellFormed

variable {ids : Nat → String} {pageId : String} {s : ImportState}

theorem not_mem_keys (wf : s.WellFormed ids pageId) (fresh : FreshIds ids pageId) :
    ids s.issued ∉ s.document.blocks.keys := by
  rw [wf.keys_eq]
  simp only [List.mem_cons, List.mem_map, List.mem_range, not_or, not_exists, not_and]
  exact ⟨fresh.ne_pageId _, fun k before same => by
    have := fresh.injective same
    omega⟩

theorem not_mem_childrenMap (wf : s.WellFormed ids pageId) (fresh : FreshIds ids pageId) :
    ids s.issued ∉ s.document.meta.childrenMap.keys :=
  fun listed => wf.not_mem_keys fresh (wf.childrenMap_keys _ listed)

theorem textEdit (wf : s.WellFormed ids pageId) {key : String} (owner : s.TextBlock key)
    {s' : ImportState} (edited : DocumentData.TextEdit key s.document s'.document)
    (issued : s'.issued = s.issued) : Grows ids pageId s s' := by
  obtain ⟨samePage, sameBlocks, sameChildren, textKeys⟩ := edited
  refine ⟨{
      pageId_eq := samePage.trans wf.pageId_eq
      keys_eq := by rw [sameBlocks, issued]; exact wf.keys_eq
      id_eq_key := by rw [sameBlocks]; exact wf.id_eq_key
      page_root := by rw [sameBlocks]; exact wf.page_root
      parent_before := by rw [sameBlocks, issued]; exact wf.parent_before
      childrenMap_keys := by rw [sameBlocks, sameChildren]; exact wf.childrenMap_keys
      children_parent := by rw [sameBlocks, sameChildren]; exact wf.children_parent
      children_perm := by
        rw [DocumentData.allChildren, sameChildren, issued]; exact wf.children_perm
      text_owner := fun k found => by
        rw [sameBlocks]
        rcases textKeys k found with rfl | old
        · exact owner
        · exact wf.text_owner k old
      unlisted_fragment := by rw [sameBlocks, sameChildren]; exact wf.unlisted_fragment
      fragment_listed_nonempty := by
        rw [sameBlocks, sameChildren]; exact wf.fragment_listed_nonempty }, ?_⟩
  rw [Extends, sameBlocks]

theorem insertDeltaToTextMap (wf : s.WellFormed ids pageId) {key : String}
    (owner : s.TextBlock key) (delta : Delta) :
    Grows ids pageId s (s.edit (·.insertDeltaToTextMap key delta)) :=
  wf.textEdit owner (.insertDeltaToTextMap _ _) rfl

theorem processInlineMdastNode (wf : s.WellFormed ids pageId) {key : String}
    (owner : s.TextBlock key) (node : Node) :
    Grows ids pageId s (s.edit (·.processInlineMdastNode node (some key))) :=
  wf.textEdit owner (.processInlineMdastNode _ _) rfl

theorem insertMarkdownAsInlineDelta (toMdast : String → Option (List Node))
    (wf : s.WellFormed ids pageId) {key : String} (owner : s.TextBlock key) (markdown : String) :
    Grows ids pageId s (s.edit (·.insertMarkdownAsInlineDelta toMdast key markdown)) :=
  wf.textEdit owner (.insertMarkdownAsInlineDelta _ _ _) rfl

theorem attach (wf : s.WellFormed ids pageId) (fresh : FreshIds ids pageId) {parent : String}
    (known : parent ∈ s.document.blocks.keys) {block : Block} (named : block.id = ids s.issued)
    (placed : block.parent = parent) {children : HashMap (List String)}
    (entry : EmptyEntry (ids s.issued) s.document.meta.childrenMap children)
    (kind : children.get? (ids s.issued) = none ↔ block.isCalloutOrToggle = true)
    {s' : ImportState}
    (samePage : s'.document.pageId = s.document.pageId)
    (blocks_eq : s'.document.blocks = s.document.blocks.insert (ids s.issued) block)
    (childrenMap_eq :
      s'.document.meta.childrenMap = children.upsert parent [] (· ++ [ids s.issued]))
    (sameText : s'.document.meta.textMap = s.document.meta.textMap)
    (issued : s'.issued = s.issued + 1) :
    Grows ids pageId s s' ∧ s'.document.blocks.get? (ids s.issued) = some block := by
  have absent := wf.not_mem_keys fresh
  have lookup : ∀ k, s'.document.blocks.get? k =
      if k = ids s.issued then some block else s.document.blocks.get? k := by
    intro k
    rw [blocks_eq, HashMap.get?_insert]
  have grows : s.Extends s' := by
    rw [Extends, blocks_eq, HashMap.insert_entries_of_not_mem absent]
    exact List.prefix_append _ _
  have keep : ∀ {k b}, s.document.blocks.get? k = some b → s'.document.blocks.get? k = some b :=
    HashMap.get?_of_prefix grows
  have parent_ne : parent ≠ ids s.issued := fun same => absent (same ▸ known)
  refine ⟨⟨{
      pageId_eq := samePage.trans wf.pageId_eq
      keys_eq := by
        rw [blocks_eq, HashMap.keys_insert_of_not_mem absent, wf.keys_eq, issued,
          List.range_succ, List.map_append]
        rfl
      id_eq_key := fun k b found => by
        rw [lookup] at found
        split at found
        · cases found
          rw [named, ‹k = _›]
        · exact wf.id_eq_key k b found
      page_root := by
        obtain ⟨b, found, root⟩ := wf.page_root
        exact ⟨b, keep found, root⟩
      parent_before := fun k before => by
        rw [issued] at before
        rcases Nat.lt_succ_iff_lt_or_eq.mp before with earlier | rfl
        · obtain ⟨b, found, parentOk⟩ := wf.parent_before k earlier
          exact ⟨b, keep found, parentOk⟩
        · refine ⟨block, by simp [lookup], ?_⟩
          have listed := known
          rw [wf.keys_eq] at listed
          simp only [List.mem_cons, List.mem_map, List.mem_range] at listed
          rcases listed with atPage | ⟨j, earlier, same⟩
          · exact .inl (placed.trans atPage)
          · exact .inr ⟨j, earlier, placed.trans same.symm⟩
      childrenMap_keys := fun k listed => by
        rw [childrenMap_eq, HashMap.mem_keys_upsert] at listed
        rw [blocks_eq, HashMap.mem_keys_insert]
        rcases listed with rfl | listed
        · exact .inr known
        · exact (entry.keys k listed).imp id (wf.childrenMap_keys k)
      children_parent := fun k l found child member => by
        rw [childrenMap_eq, HashMap.get?_upsert] at found
        split at found
        · subst k
          rw [Option.some.injEq, entry.get?_ne _ parent_ne] at found
          rw [← found, List.mem_append, List.mem_singleton] at member
          rcases member with member | rfl
          · cases listed : s.document.meta.childrenMap.get? parent with
            | none => simp [listed] at member
            | some l' =>
                rw [listed, Option.getD_some] at member
                obtain ⟨b, found, owned⟩ := wf.children_parent parent l' listed child member
                exact ⟨b, keep found, owned⟩
          · exact ⟨block, by simp [lookup], placed⟩
        · by_cases fresh : k = ids s.issued
          · subst fresh
            rw [entry.get?_self l found] at member
            cases member
          · rw [entry.get?_ne k fresh] at found
            obtain ⟨b, found, owned⟩ := wf.children_parent k l found child member
            exact ⟨b, keep found, owned⟩
      children_perm := by
        rw [DocumentData.allChildren, childrenMap_eq, issued, List.range_succ, List.map_append]
        refine (HashMap.flatMap_upsert_push _ _ _).trans ?_
        rw [entry.flatten]
        exact wf.children_perm.append_right _
      text_owner := fun k found => by
        rw [sameText] at found
        obtain ⟨b, found, external⟩ := wf.text_owner k found
        exact ⟨b, keep found, external⟩
      unlisted_fragment := fun k b found missing => by
        rw [childrenMap_eq, HashMap.get?_upsert] at missing
        split at missing
        · cases missing
        by_cases new : k = ids s.issued
        · subst new
          rw [lookup, if_pos rfl, Option.some.injEq] at found
          subst found
          exact kind.mp missing
        · rw [lookup, if_neg new] at found
          rw [entry.get?_ne k new] at missing
          exact wf.unlisted_fragment k b found missing
      fragment_listed_nonempty := fun k b found fragment => by
        rw [childrenMap_eq, HashMap.get?_upsert]
        split
        · simp
        by_cases new : k = ids s.issued
        · subst new
          rw [lookup, if_pos rfl, Option.some.injEq] at found
          subst found
          simp [kind.mpr fragment]
        · rw [lookup, if_neg new] at found
          rw [entry.get?_ne k new]
          exact wf.fragment_listed_nonempty k b found fragment }, grows⟩, by simp [lookup]⟩

variable {parent : String}

theorem register (wf : s.WellFormed ids pageId) (fresh : FreshIds ids pageId)
    (known : parent ∈ s.document.blocks.keys) (block : Block) (named : block.id = ids s.issued)
    (placed : block.parent = parent) (ordinary : block.isCalloutOrToggle = false) :
    Grows ids pageId s ({ s with issued := s.issued + 1 }.edit
        (·.registerBlock (ids s.issued) block (some parent))) ∧
      ({ s with issued := s.issued + 1 }.edit (·.registerBlock (ids s.issued) block
        (some parent))).document.blocks.get? (ids s.issued) = some block :=
  wf.attach fresh known named placed (.ensure (wf.not_mem_childrenMap fresh))
    (iff_of_false (by simp) (by simp [ordinary])) rfl rfl rfl rfl rfl

theorem registerWithoutEntry (wf : s.WellFormed ids pageId) (fresh : FreshIds ids pageId)
    (known : parent ∈ s.document.blocks.keys) (block : Block) (named : block.id = ids s.issued)
    (placed : block.parent = parent) (fragment : block.isCalloutOrToggle = true) :
    Grows ids pageId s ({ s with issued := s.issued + 1 }.edit fun d =>
        (d.insertBlock (ids s.issued) block).updateChildrenMap (some parent) (ids s.issued)) ∧
      ({ s with issued := s.issued + 1 }.edit fun d =>
        (d.insertBlock (ids s.issued) block).updateChildrenMap (some parent)
          (ids s.issued)).document.blocks.get? (ids s.issued) = some block :=
  wf.attach fresh known named placed (.absent (wf.not_mem_childrenMap fresh))
    (iff_of_true (HashMap.get?_eq_none_of_not_mem (wf.not_mem_childrenMap fresh)) fragment)
    rfl rfl rfl rfl rfl

theorem createParagraphBlock (wf : s.WellFormed ids pageId) (fresh : FreshIds ids pageId)
    (known : parent ∈ s.document.blocks.keys) :
    Grows ids pageId s (MdImporter.createParagraphBlock ids s parent).2 ∧
      (MdImporter.createParagraphBlock ids s parent).2.TextBlock
        (MdImporter.createParagraphBlock ids s parent).1 :=
  let step := wf.register fresh known (createBlock (ids s.issued) (.paragraph []) (some parent)
    none none) rfl rfl rfl
  ⟨step.1, _, step.2, rfl, rfl⟩

theorem processImage (wf : s.WellFormed ids pageId) (fresh : FreshIds ids pageId)
    (known : parent ∈ s.document.blocks.keys) (url : String) :
    Grows ids pageId s (MdImporter.processImage ids s url parent) :=
  (wf.register fresh known (createImageBlock (ids s.issued) url parent) rfl rfl rfl).1

end WellFormed

section Grows

variable {ids : Nat → String} {pageId : String} {s s' s'' : ImportState}

theorem Grows.refl (wf : s.WellFormed ids pageId) : Grows ids pageId s s := ⟨wf, .refl s⟩

theorem Grows.trans (first : Grows ids pageId s s') (second : Grows ids pageId s' s'') :
    Grows ids pageId s s'' :=
  ⟨second.1, first.2.trans second.2⟩

theorem Grows.textBlock {id : String} (grows : Grows ids pageId s s') (owner : s.TextBlock id) :
    s'.TextBlock id :=
  owner.extend grows.2

theorem Grows.mem_keys {id : String} (grows : Grows ids pageId s s')
    (known : id ∈ s.document.blocks.keys) : id ∈ s'.document.blocks.keys :=
  HashMap.keys_of_prefix grows.2 known

end Grows

end ImportState

/-- Every value `result` returns satisfies `P`; a fault satisfies anything. -/
def Returns {α : Type} (P : α → Prop) (result : Except Fault α) : Prop :=
  ∀ a, result = .ok a → P a

namespace Returns

variable {α β : Type}

theorem ok {P : α → Prop} {a : α} (holds : P a) : Returns P (.ok a) := fun _ returned => by
  cases returned
  exact holds

theorem error {P : α → Prop} (fault : Fault) : Returns P (.error fault) := fun _ returned => by
  cases returned

theorem bind {Q : α → Prop} {P : β → Prop} {x : Except Fault α} {k : α → Except Fault β}
    (first : Returns Q x) (rest : ∀ a, Q a → Returns P (k a)) : Returns P (x >>= k) := by
  cases x with
  | ok a => exact rest a (first a rfl)
  | error fault => exact error fault

theorem mono {P Q : α → Prop} {x : Except Fault α} (holds : Returns P x)
    (weaker : ∀ a, P a → Q a) : Returns Q x :=
  fun a returned => weaker a (holds a returned)

end Returns

namespace ImportState

variable {ids : Nat → String} {pageId : String} {s s' : ImportState}

theorem Grows.then {r : Except Fault ImportState} (first : Grows ids pageId s s')
    (rest : Returns (Grows ids pageId s') r) : Returns (Grows ids pageId s) r :=
  rest.mono fun _ => first.trans

theorem Grows.bind {x : Except Fault ImportState} {k : ImportState → Except Fault ImportState}
    (first : Returns (Grows ids pageId s) x)
    (rest : ∀ s', Grows ids pageId s s' → Returns (Grows ids pageId s') (k s')) :
    Returns (Grows ids pageId s) (x >>= k) :=
  first.bind fun s' grows => grows.then (rest s' grows)

end ImportState

/-- The callout or toggle a sibling loop has open is a text-bearing block. -/
def Pending.Owned (s : ImportState) : Pending → Prop
  | .none => True
  | .callout calloutId => s.TextBlock calloutId
  | .toggle toggleId _ => s.TextBlock toggleId

theorem Pending.Owned.extend {ids : Nat → String} {pageId : String} {s s' : ImportState}
    {pending : Pending} (owned : pending.Owned s) (grows : s.Grows ids pageId s') :
    pending.Owned s' := by
  cases pending with
  | none => trivial
  | callout => exact grows.textBlock owned
  | toggle => exact grows.textBlock owned

namespace ImportState

theorem pageState_blocks (documentId : String) (children : List Node) :
    (pageState documentId children).document.blocks.entries =
      [(documentId, createBlock documentId (.root children) none none none)] :=
  HashMap.insert_entries_of_not_mem (List.not_mem_nil _) _

theorem pageState_childrenMap (documentId : String) (children : List Node) :
    (pageState documentId children).document.meta.childrenMap.entries = [(documentId, [])] :=
  HashMap.upsert_entries_of_not_mem (List.not_mem_nil _) _ _

theorem pageState_textBlock (documentId : String) (children : List Node) :
    (pageState documentId children).TextBlock documentId :=
  ⟨_, (HashMap.get?_eq_some_iff _ _ _).mpr (by
    rw [pageState_blocks]
    exact List.mem_singleton_self _), rfl, rfl⟩

theorem pageState_wellFormed (ids : Nat → String) (documentId : String) (children : List Node) :
    (pageState documentId children).WellFormed ids documentId := by
  have issued : (pageState documentId children).issued = 0 := rfl
  have lookup : ∀ k, (pageState documentId children).document.blocks.get? k =
      if documentId = k then some (createBlock documentId (.root children) none none none)
      else none := fun k => by
    simp only [HashMap.get?, pageState_blocks, lookupEntry]
  exact {
    pageId_eq := rfl
    keys_eq := by simp [HashMap.keys, pageState_blocks, issued]
    id_eq_key := fun k b found => by
      rw [lookup] at found
      split at found
      · cases found
        exact ‹documentId = k›
      · cases found
    page_root := ⟨createBlock documentId (.root children) none none none, by simp [lookup], rfl⟩
    parent_before := fun k before => absurd before (Nat.not_lt_zero k)
    childrenMap_keys := fun k member => by
      simp only [HashMap.keys, pageState_childrenMap, pageState_blocks] at member ⊢
      exact member
    children_parent := fun k l found child member => by
      rw [HashMap.get?_eq_some_iff, pageState_childrenMap, List.mem_singleton,
        Prod.mk.injEq] at found
      rw [found.2] at member
      cases member
    children_perm := by simp [DocumentData.allChildren, pageState_childrenMap, issued]
    text_owner := fun k member => absurd member (List.not_mem_nil k)
    unlisted_fragment := fun k b found missing => by
      rw [lookup] at found
      split at found
      · subst k
        simp [HashMap.get?, pageState_childrenMap, lookupEntry] at missing
      · cases found
    fragment_listed_nonempty := fun k b found fragment => by
      rw [lookup] at found
      split at found
      · cases found
        simp [createBlock_ordinary] at fragment
      · cases found }

variable {ids : Nat → String} {pageId : String} {s : ImportState}

theorem WellFormed.reaches_page (wf : s.WellFormed ids pageId) :
    ∀ k < s.issued, ∃ steps, s.document.parentOf^[steps] (ids k) = pageId := by
  intro k
  induction k using Nat.strong_induction_on with
  | _ k inductionHypothesis =>
      intro before
      obtain ⟨block, found, up⟩ := wf.parent_before k before
      have parentOf_eq : s.document.parentOf (ids k) = block.parent := by
        simp [DocumentData.parentOf, found]
      rcases up with atPage | ⟨j, earlier, same⟩
      · exact ⟨1, by simp [parentOf_eq, atPage]⟩
      · obtain ⟨steps, reaches⟩ := inductionHypothesis j earlier (by omega)
        exact ⟨steps + 1, by rw [Function.iterate_succ_apply, parentOf_eq, same, reaches]⟩

theorem WellFormed.listed_once (wf : s.WellFormed ids pageId) (fresh : FreshIds ids pageId)
    {k : Nat} (before : k < s.issued) {block : Block}
    (found : s.document.blocks.get? (ids k) = some block) :
    s.document.allChildren.count (ids k) = 1 ∧ ∃ children,
      s.document.meta.childrenMap.get? block.parent = some children ∧ ids k ∈ children := by
  have drawn : ids k ∈ (List.range s.issued).map ids :=
    List.mem_map_of_mem _ (List.mem_range.mpr before)
  refine ⟨(wf.children_perm.count_eq _).trans
    (List.count_eq_one_of_mem ((List.nodup_range _).map fresh.injective) drawn), ?_⟩
  obtain ⟨⟨parent, children⟩, entry, member⟩ :=
    List.mem_flatMap.mp (wf.children_perm.symm.subset drawn)
  have listed := (HashMap.get?_eq_some_iff _ _ _).mpr entry
  obtain ⟨owner, owned, placed⟩ := wf.children_parent parent children listed (ids k) member
  rw [found, Option.some.injEq] at owned
  exact ⟨children, by rw [owned, placed]; exact listed, member⟩

theorem WellFormed.drawn_of_mem_keys (wf : s.WellFormed ids pageId) {key : String}
    (known : key ∈ s.document.blocks.keys) (notPage : key ≠ pageId) :
    ∃ k < s.issued, ids k = key := by
  rw [wf.keys_eq] at known
  simpa [notPage] using known

theorem WellFormed.listed_drawn (wf : s.WellFormed ids pageId) (fresh : FreshIds ids pageId)
    {key : String} {children : List String}
    (listed : s.document.meta.childrenMap.get? key = some children) {child : String}
    (member : child ∈ children) : ∃ k < s.issued, ids k = child := by
  obtain ⟨block, found, -⟩ := wf.children_parent key children listed child member
  refine wf.drawn_of_mem_keys (HashMap.mem_keys_of_get? found) fun atPage => ?_
  have entry := (HashMap.get?_eq_some_iff _ _ _).mp listed
  have everywhere := wf.children_perm.subset
    (List.mem_flatMap.mpr ⟨(key, children), entry, member⟩)
  obtain ⟨k, -, same⟩ := List.mem_map.mp everywhere
  exact fresh.ne_pageId k (same.trans atPage)

/-- The invariant gives the tree. -/
theorem WellFormed.treeShaped (wf : s.WellFormed ids pageId) (fresh : FreshIds ids pageId) :
    s.document.TreeShaped := by
  have drawn : ∀ key ∈ s.document.blocks.keys,
      key = pageId ∨ ∃ k < s.issued, ids k = key := by
    intro key known
    rw [wf.keys_eq] at known
    simpa using known
  rw [← wf.pageId_eq] at drawn
  exact {
    page_root := by rw [wf.pageId_eq]; exact wf.page_root
    page_unlisted := fun listed => by
      obtain ⟨k, -, same⟩ := List.mem_map.mp (wf.children_perm.subset listed)
      exact fresh.ne_pageId k (same.trans wf.pageId_eq)
    id_eq_key := wf.id_eq_key
    childrenMap_keys := wf.childrenMap_keys
    children_known := fun key children found child member =>
      let ⟨_, owned, _⟩ := wf.children_parent key children found child member
      HashMap.mem_keys_of_get? owned
    listed_once := fun key block found notPage => by
      rcases drawn key (HashMap.mem_keys_of_get? found) with atPage | ⟨k, before, rfl⟩
      · exact absurd atPage notPage
      · exact wf.listed_once fresh before found
    reaches_page := fun key known => by
      rcases drawn key known with rfl | ⟨k, before, rfl⟩
      · exact ⟨0, rfl⟩
      · rw [wf.pageId_eq]
        exact wf.reaches_page k before
    text_owner := wf.text_owner }

end ImportState

section Walk

variable (toMdast : String → Option (List Node)) (ids : Nat → String) (pageId : String)

open ImportState

/-- `processMdastNode` under a text-bearing parent keeps the invariant. -/
def NodeGrows (fuel : Nat) : Prop :=
  ∀ s node parent listType startNumber, s.WellFormed ids pageId → s.TextBlock parent →
    Returns (Grows ids pageId s)
      (processMdastNode toMdast ids fuel s node (some parent) none listType startNumber)

def ContentGrows (fuel : Nat) : Prop :=
  ∀ s node id listType startNumber, s.WellFormed ids pageId → s.TextBlock id →
    Returns (Grows ids pageId s)
      (processBlockContent toMdast ids fuel s node id listType startNumber)

def ChildrenGrows (fuel : Nat) : Prop :=
  ∀ s parent (pending : Pending) children listType startNumber, s.WellFormed ids pageId →
    s.TextBlock parent → pending.Owned s →
    Returns (Grows ids pageId s) (processMdastNodeChildren toMdast ids fuel s (some parent)
      pending children listType startNumber)

def ToggleBodyGrows (fuel : Nat) : Prop :=
  ∀ s toggleId body, s.WellFormed ids pageId → s.TextBlock toggleId →
    Returns (Grows ids pageId s) (processToggleBody toMdast ids fuel s toggleId body)

def RowsGrows (fuel : Nat) : Prop :=
  ∀ s tableId align rowIndex rows, s.WellFormed ids pageId →
    tableId ∈ s.document.blocks.keys →
    Returns (Grows ids pageId s) (processTableRows toMdast ids fuel s tableId align rowIndex rows)

def RowGrows (fuel : Nat) : Prop :=
  ∀ s cells rowIndex tableId align, s.WellFormed ids pageId →
    tableId ∈ s.document.blocks.keys →
    Returns (Grows ids pageId s) (processTableRow toMdast ids fuel s cells rowIndex tableId align)

def CellsGrows (fuel : Nat) : Prop :=
  ∀ s cells rowId rowIndex colIndex align, s.WellFormed ids pageId →
    rowId ∈ s.document.blocks.keys →
    Returns (Grows ids pageId s)
      (processTableCells toMdast ids fuel s cells rowId rowIndex colIndex align)

def ColumnsGrows (fuel : Nat) : Prop :=
  ∀ s columnsId bodyRows colIndices, s.WellFormed ids pageId →
    columnsId ∈ s.document.blocks.keys →
    Returns (Grows ids pageId s)
      (processNotionColumns toMdast ids fuel s columnsId bodyRows colIndices)

def ColumnRowsGrows (fuel : Nat) : Prop :=
  ∀ s columnId colIndex rows, s.WellFormed ids pageId → columnId ∈ s.document.blocks.keys →
    Returns (Grows ids pageId s)
      (processNotionColumnRows toMdast ids fuel s columnId colIndex rows)

section Steps

variable {toMdast ids pageId} {fuel : Nat}

theorem nodeGrows_succ (fresh : FreshIds ids pageId)
    (children : ChildrenGrows toMdast ids pageId fuel)
    (content : ContentGrows toMdast ids pageId fuel)
    (columns : ColumnsGrows toMdast ids pageId fuel) :
    NodeGrows toMdast ids pageId (fuel + 1) := by
  intro s n parent listType startNumber wf owner
  rw [processMdastNode.eq_2]
  split
  · exact .ok (wf.processInlineMdastNode owner n)
  split
  · exact .ok (.refl wf)
  split
  · exact children _ _ _ _ _ _ wf owner trivial
  obtain ⟨url, found⟩ := imageOf_ok n
  simp only [found, bind, Except.bind]
  split
  · rename_i imageUrl _ same
    cases same
    exact .ok (wf.processImage fresh owner.mem_keys imageUrl)
  split
  · have step := wf.register fresh owner.mem_keys
      (containerBlock .simpleColumns (ids s.issued) HashMap.empty parent) rfl rfl rfl
    exact step.1.then (columns _ _ _ _ step.1.1 (HashMap.mem_keys_of_get? step.2))
  · have step := wf.register fresh owner.mem_keys
      (createBlock (ids s.issued) n (some parent) listType startNumber) rfl rfl
      (createBlock_ordinary _ _ _ _ _)
    exact step.1.then (content _ _ _ _ _ step.1.1 ⟨_, step.2, rfl, rfl⟩)

theorem contentGrows_succ (children : ChildrenGrows toMdast ids pageId fuel)
    (rows : RowsGrows toMdast ids pageId fuel) : ContentGrows toMdast ids pageId (fuel + 1) := by
  intro s n id listType startNumber wf owner
  rw [processBlockContent_succ]
  split
  · exact children _ _ _ _ _ _ wf owner trivial
  · dsimp only
    split
    · exact Grows.bind (children _ _ _ _ _ _ wf owner trivial) fun s' grows =>
        children _ _ _ _ _ _ grows.1 (grows.textBlock owner) trivial
    · exact Grows.bind (.ok (.refl wf)) fun s' grows =>
        children _ _ _ _ _ _ grows.1 (grows.textBlock owner) trivial
  · exact .ok (.refl wf)
  · exact .ok (wf.insertDeltaToTextMap owner _)
  · exact rows _ _ _ _ _ wf owner.mem_keys
  · exact .error _

theorem childrenGrows_succ (fresh : FreshIds ids pageId)
    (node : NodeGrows toMdast ids pageId fuel)
    (children : ChildrenGrows toMdast ids pageId fuel)
    (body : ToggleBodyGrows toMdast ids pageId fuel) :
    ChildrenGrows toMdast ids pageId (fuel + 1) := by
  intro s parent pending siblings listType startNumber wf owner owned
  cases siblings with
  | nil => cases pending <;> exact .ok (.refl wf)
  | cons n rest =>
      cases pending with
      | none =>
          simp only [processMdastNodeChildren]
          split
          · exact children _ _ _ _ _ _ wf owner trivial
          · rename_i callout _
            have opened := wf.registerWithoutEntry fresh owner.mem_keys
              (calloutBlock (ids s.issued) callout.icon (some parent)) rfl rfl rfl
            have written := opened.1.1.insertMarkdownAsInlineDelta toMdast
              ⟨_, opened.2, rfl, rfl⟩ callout.content
            exact (opened.1.trans written).then (children _ _ _ _ _ _ written.1
              ((opened.1.trans written).textBlock owner)
              (written.textBlock ⟨_, opened.2, rfl, rfl⟩))
          · rename_i value _
            have opened := wf.registerWithoutEntry fresh owner.mem_keys
              (containerBlock .toggleList (ids s.issued) HashMap.empty parent) rfl rfl rfl
            have toggle : TextBlock _ (ids s.issued) := ⟨_, opened.2, rfl, rfl⟩
            obtain ⟨parsed, found⟩ := parseDetailsHtml_ok value
            simp only [generateId, found, bind, Except.bind]
            split
            · rename_i details
              have written := opened.1.1.insertMarkdownAsInlineDelta toMdast toggle
                details.summary
              exact (opened.1.trans written).then (Grows.bind
                (body _ _ _ written.1 (written.textBlock toggle)) fun s' grows =>
                  children _ _ _ _ _ _ grows.1
                    ((opened.1.trans (written.trans grows)).textBlock owner)
                    ((written.trans grows).textBlock toggle))
            · exact opened.1.then (children _ _ _ _ _ _ opened.1.1
                (opened.1.textBlock owner) toggle)
          · exact Grows.bind (node _ _ _ _ _ wf owner) fun s' grows =>
              children _ _ _ _ _ _ grows.1 (grows.textBlock owner) trivial
      | callout calloutId =>
          simp only [processMdastNodeChildren]
          split
          · exact children _ _ _ _ _ _ wf owner trivial
          · exact Grows.bind (node _ _ _ _ _ wf owned) fun s' grows =>
              children _ _ _ _ _ _ grows.1 (grows.textBlock owner) (grows.textBlock owned)
      | toggle toggleId summaryWritten =>
          simp only [processMdastNodeChildren]
          split
          · exact children _ _ _ _ _ _ wf owner trivial
          · rename_i value _
            obtain ⟨extracted, found⟩ := extractTagContent_ok value "summary"
            simp only [found, bind, Except.bind]
            split
            · rename_i summary after
              have written := wf.insertMarkdownAsInlineDelta toMdast owned summary
              exact written.then (Grows.bind (body _ _ _ written.1 (written.textBlock owned))
                fun s' grows => children _ _ _ _ _ _ grows.1
                  ((written.trans grows).textBlock owner)
                  ((written.trans grows).textBlock owned))
            · exact children _ _ _ _ _ _ wf owner owned
          · exact Grows.bind (node _ _ _ _ _ wf owned) fun s' grows =>
              children _ _ _ _ _ _ grows.1 (grows.textBlock owner) (grows.textBlock owned)

theorem toggleBodyGrows_succ (children : ChildrenGrows toMdast ids pageId fuel) :
    ToggleBodyGrows toMdast ids pageId (fuel + 1) := by
  intro s toggleId text wf owner
  simp only [processToggleBody]
  split
  · exact .ok (.refl wf)
  split
  · exact children _ _ _ _ _ _ wf owner trivial
  · exact .ok (.refl wf)

theorem rowsGrows_succ (row : RowGrows toMdast ids pageId fuel)
    (rows : RowsGrows toMdast ids pageId fuel) : RowsGrows toMdast ids pageId (fuel + 1) := by
  intro s tableId align rowIndex tableRows wf known
  cases tableRows with
  | nil => exact .ok (.refl wf)
  | cons first rest =>
      rw [processTableRows_succ]
      cases tableRowOf first with
      | some cells =>
          exact Grows.bind (row _ _ _ _ _ wf known) fun s' grows =>
            rows _ _ _ _ _ grows.1 (grows.mem_keys known)
      | none =>
          exact Grows.bind (.ok (.refl wf)) fun s' grows =>
            rows _ _ _ _ _ grows.1 (grows.mem_keys known)

theorem rowGrows_succ (fresh : FreshIds ids pageId)
    (cells : CellsGrows toMdast ids pageId fuel) : RowGrows toMdast ids pageId (fuel + 1) := by
  intro s tableCells rowIndex tableId align wf known
  have step := wf.register fresh known (createSimpleTableRowBlock (ids s.issued) tableId)
    rfl rfl rfl
  exact step.1.then (cells _ _ _ _ _ _ step.1.1 (HashMap.mem_keys_of_get? step.2))

theorem cellsGrows_succ (fresh : FreshIds ids pageId)
    (children : ChildrenGrows toMdast ids pageId fuel)
    (cells : CellsGrows toMdast ids pageId fuel) : CellsGrows toMdast ids pageId (fuel + 1) := by
  intro s rowCells rowId rowIndex colIndex align wf known
  cases rowCells with
  | nil => exact .ok (.refl wf)
  | cons first rest =>
      rw [processTableCells_succ]
      cases tableCellOf first with
      | some cellChildren =>
          have cell := wf.register fresh known
            (createSimpleTableCellBlock (ids s.issued) rowId rowIndex colIndex align) rfl rfl
            rfl
          have paragraph := cell.1.1.createParagraphBlock fresh
            (HashMap.mem_keys_of_get? cell.2)
          exact Grows.bind ((cell.1.trans paragraph.1).then
            (children _ _ _ _ _ _ paragraph.1.1 paragraph.2 trivial)) fun s' grows =>
              cells _ _ _ _ _ _ grows.1 (grows.mem_keys known)
      | none =>
          exact Grows.bind (.ok (.refl wf)) fun s' grows =>
            cells _ _ _ _ _ _ grows.1 (grows.mem_keys known)

theorem columnsGrows_succ (fresh : FreshIds ids pageId)
    (columnRows : ColumnRowsGrows toMdast ids pageId fuel)
    (columns : ColumnsGrows toMdast ids pageId fuel) :
    ColumnsGrows toMdast ids pageId (fuel + 1) := by
  intro s columnsId bodyRows colIndices wf known
  cases colIndices with
  | nil => exact .ok (.refl wf)
  | cons colIndex rest =>
      have column := wf.register fresh known
        (containerBlock .simpleColumn (ids s.issued) HashMap.empty columnsId) rfl rfl rfl
      exact column.1.then (Grows.bind
        (columnRows _ _ _ _ column.1.1 (HashMap.mem_keys_of_get? column.2)) fun s' grows =>
          columns _ _ _ _ grows.1 ((column.1.trans grows).mem_keys known))

theorem columnRowsGrows_succ (fresh : FreshIds ids pageId)
    (children : ChildrenGrows toMdast ids pageId fuel)
    (columnRows : ColumnRowsGrows toMdast ids pageId fuel) :
    ColumnRowsGrows toMdast ids pageId (fuel + 1) := by
  intro s columnId colIndex bodyRows wf known
  cases bodyRows with
  | nil => exact .ok (.refl wf)
  | cons first rest =>
      simp only [processNotionColumnRows]
      split
      · split
        · split
          · exact Grows.bind (.ok (.refl wf)) fun s' grows =>
              columnRows _ _ _ _ grows.1 (grows.mem_keys known)
          · have paragraph := wf.createParagraphBlock fresh known
            exact Grows.bind (paragraph.1.then
              (children _ _ _ _ _ _ paragraph.1.1 paragraph.2 trivial)) fun s' grows =>
                columnRows _ _ _ _ grows.1 (grows.mem_keys known)
        · exact Grows.bind (.ok (.refl wf)) fun s' grows =>
            columnRows _ _ _ _ grows.1 (grows.mem_keys known)
      · exact Grows.bind (.ok (.refl wf)) fun s' grows =>
          columnRows _ _ _ _ grows.1 (grows.mem_keys known)

end Steps

/-- Every call the walker makes keeps the invariant and the blocks already
made. -/
theorem walk_wellFormed (fresh : FreshIds ids pageId) (fuel : Nat) :
    NodeGrows toMdast ids pageId fuel ∧ ContentGrows toMdast ids pageId fuel ∧
      ChildrenGrows toMdast ids pageId fuel ∧ ToggleBodyGrows toMdast ids pageId fuel ∧
      RowsGrows toMdast ids pageId fuel ∧ RowGrows toMdast ids pageId fuel ∧
      CellsGrows toMdast ids pageId fuel ∧ ColumnsGrows toMdast ids pageId fuel ∧
      ColumnRowsGrows toMdast ids pageId fuel := by
  induction fuel with
  | zero =>
      refine ⟨?_, ?_, ?_, ?_, ?_, ?_, ?_, ?_, ?_⟩ <;> intro s <;> intros <;> exact .error _
  | succ fuel inductionHypothesis =>
      obtain ⟨node, content, children, body, rows, row, cells, columns, columnRows⟩ :=
        inductionHypothesis
      exact ⟨nodeGrows_succ fresh children content columns, contentGrows_succ children rows,
        childrenGrows_succ fresh node children body, toggleBodyGrows_succ children,
        rowsGrows_succ row rows, rowGrows_succ fresh cells,
        cellsGrows_succ fresh children cells, columnsGrows_succ fresh columnRows columns,
        columnRowsGrows_succ fresh children columnRows⟩

end Walk

/-- Every snapshot `import` returns is the document of a well-formed state. -/
theorem importMd_wellFormed (importer : MDImporter) (ids : Nat → String) (pageId : String)
    (fresh : FreshIds ids pageId) (fuel : Nat) (md : String) (d : DocumentData)
    (imported : importer.importMd ids fuel pageId md = .ok (.ok d)) :
    ∃ s : ImportState, s.WellFormed ids pageId ∧ s.document = d := by
  cases fuel with
  | zero =>
      rw [importMd_zero] at imported
      split at imported <;> cases imported
  | succ fuel =>
      rw [importMd_succ] at imported
      split at imported
      · cases imported
      · rename_i children _
        have walked := (walk_wellFormed importer.toMdast ids pageId fresh fuel).2.1
          (pageState pageId children) (.root children) pageId none none
          (ImportState.pageState_wellFormed ids pageId children)
          (ImportState.pageState_textBlock pageId children)
        cases returned : processBlockContent importer.toMdast ids fuel (pageState pageId children)
            (.root children) pageId none none with
        | error fault =>
            rw [returned] at imported
            cases imported
        | ok s =>
            rw [returned] at imported
            cases imported
            exact ⟨s, (walked s returned).1, rfl⟩

/-- With an id supply whose ids are fresh, every snapshot `import` returns is
one tree of blocks rooted at the page. -/
theorem importMd_treeShaped (importer : MDImporter) (ids : Nat → String) (pageId : String)
    (fresh : FreshIds ids pageId) (fuel : Nat) (md : String) (d : DocumentData)
    (imported : importer.importMd ids fuel pageId md = .ok (.ok d)) : d.TreeShaped := by
  obtain ⟨s, wf, rfl⟩ := importMd_wellFormed importer ids pageId fresh fuel md d imported
  exact wf.treeShaped fresh

theorem freshIds_replicate (k : Nat) : FreshIds (fun n => ⟨List.replicate (n + k) 'b'⟩) "P" :=
  ⟨fun m n same => by simpa using congrArg String.length same,
    fun n same => by
      have chars := congrArg String.data same
      generalize n + k = length at chars
      cases length <;> simp [List.replicate_succ] at chars⟩

theorem importMd_treeShaped_paragraph :
    ∃ d, (⟨fun _ => some [.paragraph [.text "a"]]⟩ : MDImporter).importMd
        (fun n => ⟨List.replicate (n + 1) 'b'⟩) 10 "P" "a" = .ok (.ok d) ∧ d.TreeShaped :=
  ⟨_, rfl, importMd_treeShaped ⟨fun _ => some [.paragraph [.text "a"]]⟩
    (fun n => ⟨List.replicate (n + 1) 'b'⟩) "P" (freshIds_replicate 1) 10 "a" _ rfl⟩

/-- With fresh ids, a block of a snapshot `import` returns has no children
list exactly when it is a callout or a toggle and no block but the page names
it as parent: `ensure_children_map_entry` is called for every other block. -/
theorem importMd_childrenMap_missing_iff (importer : MDImporter) (ids : Nat → String)
    (pageId : String) (fresh : FreshIds ids pageId) (fuel : Nat) (md : String) (d : DocumentData)
    (imported : importer.importMd ids fuel pageId md = .ok (.ok d)) {key : String}
    {block : Block} (found : d.blocks.get? key = some block) :
    d.meta.childrenMap.get? key = none ↔ block.isCalloutOrToggle = true ∧
      ∀ child childBlock, child ≠ d.pageId → d.blocks.get? child = some childBlock →
        childBlock.parent ≠ key := by
  obtain ⟨s, wf, rfl⟩ := importMd_wellFormed importer ids pageId fresh fuel md d imported
  rw [wf.pageId_eq]
  constructor
  · intro missing
    refine ⟨wf.unlisted_fragment key block found missing,
      fun child childBlock notPage owned => ?_⟩
    intro placed
    obtain ⟨k, before, rfl⟩ := wf.drawn_of_mem_keys (HashMap.mem_keys_of_get? owned) notPage
    obtain ⟨-, children, listed, -⟩ := wf.listed_once fresh before owned
    rw [placed, missing] at listed
    cases listed
  · rintro ⟨fragment, unowned⟩
    cases listed : s.document.meta.childrenMap.get? key with
    | none => rfl
    | some children =>
        cases children with
        | nil => exact absurd listed (wf.fragment_listed_nonempty key block found fragment)
        | cons child rest =>
            obtain ⟨childBlock, owned, placed⟩ :=
              wf.children_parent key _ listed child (List.mem_cons_self _ _)
            obtain ⟨k, -, rfl⟩ := wf.listed_drawn fresh listed (List.mem_cons_self _ _)
            exact absurd placed (unowned _ childBlock (fresh.ne_pageId k) owned)

theorem importMd_childrenMap_missing_iff_callout :
    ∃ d, (⟨fun md =>
        if md = "<aside>💡 Be careful</aside>" then some [.html "<aside>💡 Be careful</aside>"]
        else if md = "Be careful" then some [.paragraph [.text "Be careful"]]
        else none⟩ : MDImporter).importMd (fun n => ⟨List.replicate (n + 1) 'b'⟩) 10 "P"
          "<aside>💡 Be careful</aside>" = .ok (.ok d) ∧ ∃ block, d.blocks.get? "b" = some block ∧
      (d.meta.childrenMap.get? "b" = none ↔ block.isCalloutOrToggle = true ∧
        ∀ child childBlock, child ≠ d.pageId → d.blocks.get? child = some childBlock →
          childBlock.parent ≠ "b") :=
  ⟨_, rfl, _, rfl, importMd_childrenMap_missing_iff ⟨fun md =>
    if md = "<aside>💡 Be careful</aside>" then some [.html "<aside>💡 Be careful</aside>"]
    else if md = "Be careful" then some [.paragraph [.text "Be careful"]]
    else none⟩ _ "P" (freshIds_replicate 1) 10 "<aside>💡 Be careful</aside>" _ rfl rfl⟩

/-- A self-closed callout with nothing under it, as markdown-rs parses
`<aside>💡 Be careful</aside>`: the callout `b` is a block but has no children
list. -/
theorem importMd_childlessCallout_unlisted :
    ∃ d, (⟨fun md =>
        if md = "<aside>💡 Be careful</aside>" then some [.html "<aside>💡 Be careful</aside>"]
        else if md = "Be careful" then some [.paragraph [.text "Be careful"]]
        else none⟩ : MDImporter).importMd (fun n => ⟨List.replicate (n + 1) 'b'⟩) 10 "P"
          "<aside>💡 Be careful</aside>" = .ok (.ok d) ∧
      "b" ∈ d.blocks.keys ∧ d.meta.childrenMap.get? "b" = none :=
  ⟨_, rfl, by decide, rfl⟩

end MdImporter
