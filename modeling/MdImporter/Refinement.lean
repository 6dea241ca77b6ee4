import MdImporter.Semantics
import MdImporter.SimpleTable

/-!
# The walk builds the tree semantics

The document the walk builds is read as trees: block `k` reads as
`.node ty data delta children` when it has that type tag and data, that
delta, and a children list whose ids read, one by one, as `children`
(`Reads`). Each call of the walk adds under the block it works for what the
tree semantics says (`Adds`): segments at the end of that block's delta, and
at the end of its children list blocks drawn during the call that read as the
contribution's trees. The semantics runs on the same fuel and fails exactly
where the walk does, with the same fault (`Simulates`). `walk_refines` proves
this of every function of the walk by induction on the fuel, and
`importMd_refines` reads it off `import`: the snapshot's page reads as the
tree `importTree` gives.

A reading is about ids the walk drew: every child read is in an interval of
the id supply, `DrawnIn`. A later call leaves the blocks of an interval alone
when it owns none of them (the frames of `Tables`), and the reading moves to
its result (`ReadsList.keep`).
-/

namespace MdImporter

set_option autoImplicit false

open ImportState

/-- A block's type tag and data, what a `BlockTree` records of it. -/
def Block.shape (block : Block) : String × BlockData := (block.ty, block.data)

/-- `k` was drawn from the supply at a position in `[lo, hi)`. -/
def DrawnIn (ids : Nat → String) (lo hi : Nat) (k : String) : Prop :=
  ∃ n, lo ≤ n ∧ n < hi ∧ ids n = k

theorem DrawnIn.mono {ids : Nat → String} {lo hi lo' hi' : Nat} {k : String}
    (drawn : DrawnIn ids lo hi k) (le_lo : lo' ≤ lo) (le_hi : hi ≤ hi') : DrawnIn ids lo' hi' k :=
  let ⟨n, after, before, same⟩ := drawn
  ⟨n, le_lo.trans after, lt_of_lt_of_le before le_hi, same⟩

mutual

/-- Block `k` of `d` reads as `tree`: its type tag and data, its delta, and its
children list, whose ids are `inside` and read as the subtrees in order. -/
def Reads (d : DocumentData) (inside : String → Prop) : String → BlockTree → Prop
  | k, .node ty data delta children =>
      (d.blocks.get? k).map Block.shape = some (ty, data) ∧ d.deltaOf k = delta ∧
        ReadsList d inside (d.childrenOf k) children

/-- A list of ids reads as a list of trees, one by one. -/
def ReadsList (d : DocumentData) (inside : String → Prop) : List String → List BlockTree → Prop
  | [], [] => True
  | k :: ks, tree :: trees => inside k ∧ Reads d inside k tree ∧ ReadsList d inside ks trees
  | _, _ => False

end

/-- Block `k` is the same block, with the same list and delta, in `d` and `d'`. -/
structure SameBlock (d d' : DocumentData) (k : String) : Prop where
  block : d'.blocks.get? k = d.blocks.get? k
  children : d'.childrenOf k = d.childrenOf k
  delta : d'.deltaOf k = d.deltaOf k

section Reading

variable {d d' : DocumentData} {inside inside' : String → Prop}

mutual

theorem Reads.transport (same : ∀ k, inside k → SameBlock d d' k) :
    ∀ {k : String} {tree : BlockTree}, SameBlock d d' k → Reads d inside k tree →
      Reads d' inside k tree
  | _, .node _ _ _ _, root, ⟨shape, delta, children⟩ =>
      ⟨root.block ▸ shape, root.delta ▸ delta, root.children ▸ ReadsList.transport same children⟩

theorem ReadsList.transport (same : ∀ k, inside k → SameBlock d d' k) :
    ∀ {ks : List String} {trees : List BlockTree}, ReadsList d inside ks trees →
      ReadsList d' inside ks trees
  | [], [], _ => trivial
  | _ :: _, _ :: _, ⟨drawn, reads, rest⟩ =>
      ⟨drawn, Reads.transport same (same _ drawn) reads, ReadsList.transport same rest⟩

end

mutual

theorem Reads.mono (wider : ∀ k, inside k → inside' k) :
    ∀ {k : String} {tree : BlockTree}, Reads d inside k tree → Reads d inside' k tree
  | _, .node _ _ _ _, ⟨shape, delta, children⟩ => ⟨shape, delta, ReadsList.mono wider children⟩

theorem ReadsList.mono (wider : ∀ k, inside k → inside' k) :
    ∀ {ks : List String} {trees : List BlockTree}, ReadsList d inside ks trees →
      ReadsList d inside' ks trees
  | [], [], _ => trivial
  | _ :: _, _ :: _, ⟨drawn, reads, rest⟩ =>
      ⟨wider _ drawn, Reads.mono wider reads, ReadsList.mono wider rest⟩

end

theorem ReadsList.append {ks ks' : List String} {trees trees' : List BlockTree} :
    ReadsList d inside ks trees → ReadsList d inside ks' trees' →
      ReadsList d inside (ks ++ ks') (trees ++ trees') := by
  induction ks generalizing trees with
  | nil => cases trees <;> simp [ReadsList]
  | cons k ks inductionHypothesis =>
      cases trees with
      | nil => simp [ReadsList]
      | cons tree trees =>
          exact fun ⟨drawn, reads, rest⟩ after => ⟨drawn, reads, inductionHypothesis rest after⟩

end Reading

namespace DocumentData

@[simp] theorem deltaOf_insertDeltaToTextMap (d : DocumentData) (key : String) (delta : Delta)
    (q : String) :
    (d.insertDeltaToTextMap key delta).deltaOf q = d.deltaOf q ++ if q = key then delta else [] :=
  HashMap.getD_upsert_append _ _ _ _

@[simp] theorem childrenOf_insertDeltaToTextMap (d : DocumentData) (key : String)
    (delta : Delta) (q : String) :
    (d.insertDeltaToTextMap key delta).childrenOf q = d.childrenOf q :=
  rfl

theorem deltaOf_foldl {α : Type} {step : DocumentData → α → DocumentData} {f : α → Delta}
    {key q : String}
    (appends : ∀ d x, (step d x).deltaOf q = d.deltaOf q ++ if q = key then f x else []) :
    ∀ (xs : List α) (d : DocumentData),
      (xs.foldl step d).deltaOf q = d.deltaOf q ++ if q = key then xs.flatMap f else []
  | [], d => by simp
  | x :: xs, d => by
      rw [List.foldl_cons, deltaOf_foldl appends xs, appends]
      split <;> simp

theorem deltaOf_insertInlineChild (d : DocumentData) (key : String) (child : Node) (q : String) :
    (d.insertInlineChild key child).deltaOf q =
      d.deltaOf q ++ if q = key then inlineChildDelta child else [] := by
  unfold insertInlineChild inlineChildDelta
  split <;> exact deltaOf_insertDeltaToTextMap _ _ _ _

theorem deltaOf_insertMarkdownAsInlineDelta (toMdast : String → Option (List Node))
    (d : DocumentData) (key markdown q : String) :
    (d.insertMarkdownAsInlineDelta toMdast key markdown).deltaOf q =
      d.deltaOf q ++ if q = key then markdownDelta toMdast markdown else [] := by
  have fragment : ∀ (d : DocumentData) (child : Node), (match child with
      | .paragraph inline | .heading _ inline =>
          inline.foldl (fun (d : DocumentData) c => d.insertInlineChild key c) d
      | _ => d.insertDeltaToTextMap key [⟨child.toString, []⟩]).deltaOf q =
        d.deltaOf q ++ if q = key then fragmentNodeDelta child else [] := by
    intro d child
    cases child
    case paragraph inline | heading _ inline =>
      exact deltaOf_foldl (fun d c => deltaOf_insertInlineChild d key c q) inline d
    all_goals exact deltaOf_insertDeltaToTextMap _ _ _ _
  unfold insertMarkdownAsInlineDelta markdownDelta
  dsimp only
  split
  · simp
  · cases toMdast (RustStr.trim markdown) with
    | none => exact deltaOf_insertDeltaToTextMap _ _ _ _
    | some children => exact deltaOf_foldl fragment children d

theorem childrenOf_insertMarkdownAsInlineDelta (toMdast : String → Option (List Node))
    (d : DocumentData) (key markdown q : String) :
    (d.insertMarkdownAsInlineDelta toMdast key markdown).childrenOf q = d.childrenOf q := by
  rw [childrenOf, (TextEdit.insertMarkdownAsInlineDelta toMdast d markdown).childrenMap_eq]
  rfl

end DocumentData

section Adds

variable (ids : Nat → String)

/-- What a call did under `p`: from the list `base` and the delta `delta`,
`p`'s list grew by ids drawn from `lo` on, which read as the contribution's
trees, and its delta by the contribution's segments. -/
def AddsAfter (p : String) (base : List String) (lo : Nat) (delta : Delta) (s' : ImportState)
    (contribution : Contribution) : Prop :=
  ∃ added, s'.document.childrenOf p = base ++ added ∧
    ReadsList s'.document (DrawnIn ids lo s'.issued) added contribution.children ∧
    s'.document.deltaOf p = delta ++ contribution.delta

/-- A call from `s` to `s'` added `contribution` under `p`. -/
def Adds (p : String) (s : ImportState) : ImportState → Contribution → Prop :=
  AddsAfter ids p (s.document.childrenOf p) s.issued (s.document.deltaOf p)

variable {ids}

theorem Adds.refl (p : String) (s : ImportState) : Adds ids p s s .empty :=
  ⟨[], by simp, trivial, by simp [Contribution.empty]⟩

theorem Adds.text (p : String) (s : ImportState) (delta : Delta) :
    Adds ids p s (s.edit (·.insertDeltaToTextMap p delta)) ⟨delta, []⟩ :=
  ⟨[], by simp, trivial, by simp⟩

end Adds

section Frames

variable {ids : Nat → String} {pageId : String} {s s' : ImportState}

theorem ImportState.WellFormed.mem_keys_of_lt (wf : s.WellFormed ids pageId) {n : Nat}
    (before : n < s.issued) : ids n ∈ s.document.blocks.keys := by
  rw [wf.keys_eq]
  exact List.mem_cons_of_mem _ (List.mem_map_of_mem _ (List.mem_range.mpr before))

theorem ImportState.Extends.shape (grows : s.Extends s') {k : String} {shape : String × BlockData}
    (found : (s.document.blocks.get? k).map Block.shape = some shape) :
    (s'.document.blocks.get? k).map Block.shape = some shape := by
  obtain ⟨block, known, rfl⟩ := Option.map_eq_some'.mp found
  rw [HashMap.get?_of_prefix grows known]
  rfl

theorem KeepsBut.sameBlock {owner : String} (keeps : KeepsBut owner s s') (grows : s.Extends s')
    {k : String} (known : k ∈ s.document.blocks.keys) (other : k ≠ owner) :
    SameBlock s.document s'.document k := by
  obtain ⟨block, found⟩ := Option.isSome_iff_exists.mp ((HashMap.mem_keys_iff_get? _ _).mp known)
  exact ⟨(HashMap.get?_of_prefix grows found).trans found.symm, (keeps k known other).1,
    (keeps k known other).2⟩

variable {owner : String} {lo hi : Nat}

theorem ReadsList.keep (wf : s.WellFormed ids pageId) (grows : s.Extends s')
    (keeps : KeepsBut owner s s') (notOwner : ∀ n, lo ≤ n → ids n ≠ owner) (hi_le : hi ≤ s.issued)
    {ks : List String} {trees : List BlockTree}
    (reads : ReadsList s.document (DrawnIn ids lo hi) ks trees) :
    ReadsList s'.document (DrawnIn ids lo hi) ks trees :=
  reads.transport fun _ ⟨n, after, before, same⟩ =>
    keeps.sameBlock grows (same ▸ wf.mem_keys_of_lt (by omega)) (same ▸ notOwner n after)

end Frames

@[simp] theorem ok_bind {ε α β : Type} (a : α) (f : α → Except ε β) : (Except.ok a >>= f) = f a :=
  rfl

theorem Simulates.bind_ok {ε α β γ δ : Type} {R : α → β → Prop} {R' : γ → δ → Prop}
    {x : Except ε α} {x' : Except ε β} {k : α → Except ε γ} {k' : β → Except ε δ}
    (first : Simulates R x x') (rest : ∀ a b, x = .ok a → R a b → Simulates R' (k a) (k' b)) :
    Simulates R' (x >>= k) (x' >>= k') := by
  cases x with
  | error e =>
      cases x' with
      | error e' => exact (first : e = e')
      | ok _ => exact first.elim
  | ok a =>
      cases x' with
      | error _ => exact first.elim
      | ok b => exact rest a b rfl first

theorem Simulates.map_right {ε α β γ : Type} {R : α → β → Prop} {R' : α → γ → Prop}
    {x : Except ε α} {x' : Except ε β} {f : β → γ} (first : Simulates R x x')
    (rest : ∀ a b, x = .ok a → R a b → R' a (f b)) :
    Simulates R' x (x' >>= fun b => pure (f b)) := by
  cases x with
  | error e =>
      cases x' with
      | error e' => exact (first : e = e')
      | ok _ => exact first.elim
  | ok a =>
      cases x' with
      | error _ => exact first.elim
      | ok b => exact rest a b rfl first

section Made

variable {ids : Nat → String} {pageId : String} {s s0 s1 s2 : ImportState} {p : String}

/-- `s'` is `s` with one new block `block`, under the next id of the supply, with
no children and no delta yet, last in `p`'s list; the other blocks of `s` keep
their lists and deltas. -/
structure Made (ids : Nat → String) (pageId p : String) (block : Block) (s s' : ImportState) :
    Prop where
  grows : Grows ids pageId s s'
  issued : s'.issued = s.issued + 1
  found : s'.document.blocks.get? (ids s.issued) = some block
  children : s'.document.childrenOf (ids s.issued) = []
  delta : s'.document.deltaOf (ids s.issued) = []
  listed : s'.document.childrenOf p = s.document.childrenOf p ++ [ids s.issued]
  keeps : KeepsBut p s s'
  written : s'.document.deltaOf p = s.document.deltaOf p

namespace DocumentData

@[simp] theorem childrenOf_insertBlock (d : DocumentData) (id : String) (block : Block)
    (q : String) : (d.insertBlock id block).childrenOf q = d.childrenOf q := rfl

@[simp] theorem deltaOf_insertBlock (d : DocumentData) (id : String) (block : Block)
    (q : String) : (d.insertBlock id block).deltaOf q = d.deltaOf q := rfl

@[simp] theorem childrenOf_updateChildrenMap (d : DocumentData) (parent child q : String) :
    (d.updateChildrenMap (some parent) child).childrenOf q =
      d.childrenOf q ++ if q = parent then [child] else [] :=
  HashMap.getD_upsert_append _ _ _ _

@[simp] theorem deltaOf_updateChildrenMap (d : DocumentData) (parentId : Option String)
    (child q : String) : (d.updateChildrenMap parentId child).deltaOf q = d.deltaOf q := by
  cases parentId <;> rfl

end DocumentData

namespace ImportState.WellFormed

theorem made (wf : s.WellFormed ids pageId) (fresh : FreshIds ids pageId)
    (known : p ∈ s.document.blocks.keys) (block : Block) (named : block.id = ids s.issued)
    (placed : block.parent = p) (ordinary : block.isCalloutOrToggle = false) :
    Made ids pageId p block s ({ s with issued := s.issued + 1 }.edit
      (·.registerBlock (ids s.issued) block (some p))) := by
  have step := wf.register fresh known block named placed ordinary
  have other : ids s.issued ≠ p := drawn_ne fresh (wf.drawn known) le_rfl
  have empty := wf.unknown (wf.not_mem_keys fresh)
  exact ⟨step.1, rfl, step.2, by simp [other, empty.1], by simp [empty.2], by simp,
    fun k _ different => by simp [different], by simp⟩

theorem madeWithoutEntry (wf : s.WellFormed ids pageId) (fresh : FreshIds ids pageId)
    (known : p ∈ s.document.blocks.keys) (block : Block) (named : block.id = ids s.issued)
    (placed : block.parent = p) (fragment : block.isCalloutOrToggle = true) :
    Made ids pageId p block s ({ s with issued := s.issued + 1 }.edit fun d =>
      (d.insertBlock (ids s.issued) block).updateChildrenMap (some p) (ids s.issued)) := by
  have step := wf.registerWithoutEntry fresh known block named placed fragment
  have other : ids s.issued ≠ p := drawn_ne fresh (wf.drawn known) le_rfl
  have empty := wf.unknown (wf.not_mem_keys fresh)
  exact ⟨step.1, rfl, step.2, by simp [other, empty.1], by simp [empty.2], by simp,
    fun k _ different => by simp [different], by simp⟩

end ImportState.WellFormed

theorem KeepsBut.refl (owner : String) (s : ImportState) : KeepsBut owner s s :=
  fun _ _ _ => ⟨rfl, rfl⟩

theorem KeepsBut.trans {owner owner' : String} (first : KeepsBut owner s s1)
    (grows : s.Extends s1) (second : KeepsBut owner' s1 s2)
    (unknown : owner' ∉ s.document.blocks.keys) : KeepsBut owner s s2 := fun k known other =>
  let ⟨children, delta⟩ := first k known other
  let ⟨children', delta'⟩ := second k (HashMap.keys_of_prefix grows known)
    fun same => unknown (same ▸ known)
  ⟨children'.trans children, delta'.trans delta⟩

theorem Adds.made (fresh : FreshIds ids pageId) (wf : s.WellFormed ids pageId)
    (known : p ∈ s.document.blocks.keys) {block : Block} (made : Made ids pageId p block s s0)
    (grows : Grows ids pageId s0 s1) (keeps : KeepsBut (ids s.issued) s0 s1) {c : Contribution}
    (filled : Adds ids (ids s.issued) s0 s1 c) :
    Adds ids p s s1 (.child (c.tree block.ty block.data)) := by
  obtain ⟨added, listed, reads, written⟩ := filled
  have le := grows.issued_le made.grows.1
  have issued := made.issued
  have kept := keeps p (HashMap.keys_of_prefix made.grows.2 known)
    (drawn_ne fresh (wf.drawn known) le_rfl).symm
  refine ⟨[ids s.issued], by rw [kept.1, made.listed], ⟨⟨s.issued, le_rfl, by omega, rfl⟩,
    ⟨grows.2.shape (by rw [made.found]; rfl), by rw [written, made.delta]; rfl, ?_⟩, trivial⟩,
    by rw [kept.2, made.written]; exact (List.append_nil _).symm⟩
  rw [listed, made.children]
  exact reads.mono fun _ drawn => drawn.mono (by omega) le_rfl

theorem AddsAfter.append (wf : s1.WellFormed ids pageId) (grows : Grows ids pageId s1 s2)
    (keeps : KeepsBut p s1 s2) {base : List String} {lo : Nat} {delta : Delta}
    (lo_le : lo ≤ s1.issued) (notOwner : ∀ n, lo ≤ n → ids n ≠ p) {c c' : Contribution}
    (first : AddsAfter ids p base lo delta s1 c) (second : Adds ids p s1 s2 c') :
    AddsAfter ids p base lo delta s2 (c ++ c') := by
  obtain ⟨added, listed, reads, written⟩ := first
  obtain ⟨added', listed', reads', written'⟩ := second
  have le := grows.issued_le wf
  refine ⟨added ++ added', by rw [listed', listed, List.append_assoc], ?_,
    by rw [written', written, List.append_assoc]; rfl⟩
  exact ((reads.keep wf grows.2 keeps notOwner le_rfl).mono fun _ drawn =>
    drawn.mono le_rfl le).append (reads'.mono fun _ drawn => drawn.mono lo_le le_rfl)

theorem Reads.extend (wf : s.WellFormed ids pageId) (grows : Grows ids pageId s s1) {k : String}
    (keeps : KeepsBut k s s1) {lo : Nat} (notOwner : ∀ n, lo ≤ n → ids n ≠ k)
    (lo_le : lo ≤ s.issued) {tree : BlockTree}
    (reads : Reads s.document (DrawnIn ids lo s.issued) k tree) {c : Contribution}
    (added : Adds ids k s s1 c) :
    Reads s1.document (DrawnIn ids lo s1.issued) k (tree.extend c) := by
  obtain ⟨ty, data, delta, children⟩ := tree
  obtain ⟨shape, written, listed⟩ := reads
  obtain ⟨added, listed', reads', written'⟩ := added
  have le := grows.issued_le wf
  refine ⟨grows.2.shape shape, by rw [written', written], ?_⟩
  rw [listed']
  exact ((listed.keep wf grows.2 keeps notOwner le_rfl).mono fun _ drawn =>
    drawn.mono le_rfl le).append (reads'.mono fun _ drawn => drawn.mono lo_le le_rfl)

theorem Adds.markdown (toMdast : String → Option (List Node)) (key markdown : String)
    (s : ImportState) :
    Adds ids key s (s.edit (·.insertMarkdownAsInlineDelta toMdast key markdown))
      ⟨markdownDelta toMdast markdown, []⟩ :=
  ⟨[], by simp [DocumentData.childrenOf_insertMarkdownAsInlineDelta], trivial,
    by simp [DocumentData.deltaOf_insertMarkdownAsInlineDelta]⟩

theorem KeepsBut.markdown (toMdast : String → Option (List Node)) (key markdown : String)
    (s : ImportState) :
    KeepsBut key s (s.edit (·.insertMarkdownAsInlineDelta toMdast key markdown)) :=
  fun _ _ other => ⟨DocumentData.childrenOf_insertMarkdownAsInlineDelta _ _ _ _ _,
    by simp [DocumentData.deltaOf_insertMarkdownAsInlineDelta, other]⟩

end Made

/-- The callout or toggle `k` that the sibling loop under `p` has open: drawn at
`lo`, last in `p`'s list after `base`, with `p`'s delta at `delta`, and reading as
`tree` with its children drawn after it; `p` is none of the ids drawn from `lo`
on. -/
structure OpenAt (ids : Nat → String) (s : ImportState) (p : String) (base : List String)
    (lo : Nat) (delta : Delta) (k : String) (tree : BlockTree) : Prop where
  drawn : k = ids lo
  before : lo < s.issued
  listed : s.document.childrenOf p = base ++ [k]
  written : s.document.deltaOf p = delta
  reads : Reads s.document (DrawnIn ids (lo + 1) s.issued) k tree
  parent : ∀ n, lo ≤ n → ids n ≠ p

/-- The walk's sibling loop under `p` and the semantics' stand at the same
place: nothing open, with `p`'s list and delta at `base` and `delta` and the
supply at `lo`; or the same kind of block open, read as the open tree. -/
def OpenMatches (ids : Nat → String) (s : ImportState) (p : String) (base : List String)
    (lo : Nat) (delta : Delta) : Pending → OpenTree → Prop
  | .none, .none => s.document.childrenOf p = base ∧ lo = s.issued ∧ s.document.deltaOf p = delta
  | .callout calloutId, .callout tree => OpenAt ids s p base lo delta calloutId tree
  | .toggle toggleId summaryWritten, .toggle tree written =>
      summaryWritten = written ∧ OpenAt ids s p base lo delta toggleId tree
  | _, _ => False

section Open

variable {ids : Nat → String} {pageId : String} {s s0 s1 : ImportState} {p k : String}
  {base : List String} {lo : Nat} {delta : Delta} {tree : BlockTree}

theorem Made.openAt (fresh : FreshIds ids pageId) (wf : s.WellFormed ids pageId)
    (known : p ∈ s.document.blocks.keys) {block : Block} (made : Made ids pageId p block s s0) :
    OpenAt ids s0 p (s.document.childrenOf p) s.issued (s.document.deltaOf p) (ids s.issued)
      (.node block.ty block.data [] []) :=
  ⟨rfl, by rw [made.issued]; exact Nat.lt_succ_self _, made.listed, made.written,
    ⟨by rw [made.found]; rfl, made.delta, by rw [made.children]; trivial⟩,
    fun _ after => drawn_ne fresh (wf.drawn known) after⟩

theorem OpenAt.extend (fresh : FreshIds ids pageId) (opened : OpenAt ids s p base lo delta k tree)
    (wf : s.WellFormed ids pageId) (known : p ∈ s.document.blocks.keys)
    (grows : Grows ids pageId s s1) (keeps : KeepsBut k s s1) {c : Contribution}
    (added : Adds ids k s s1 c) : OpenAt ids s1 p base lo delta k (tree.extend c) := by
  have other : p ≠ k := fun same => opened.parent lo le_rfl (opened.drawn ▸ same).symm
  have kept := keeps p known other
  refine ⟨opened.drawn, lt_of_lt_of_le opened.before (grows.issued_le wf),
    kept.1.trans opened.listed, kept.2.trans opened.written,
    opened.reads.extend wf grows keeps (fun n after same => ?_) opened.before added, opened.parent⟩
  rw [opened.drawn] at same
  have := fresh.injective same
  omega

theorem OpenAt.finish (opened : OpenAt ids s p base lo delta k tree) :
    AddsAfter ids p base lo delta s (.child tree) :=
  ⟨[k], opened.listed, ⟨⟨lo, le_rfl, opened.before, opened.drawn.symm⟩,
    opened.reads.mono fun _ drawn => drawn.mono (Nat.le_succ lo) le_rfl, trivial⟩,
    by rw [opened.written]; exact (List.append_nil _).symm⟩

end Open

section Calls

variable {toMdast : String → Option (List Node)} {ids : Nat → String} {pageId : String}
  {fuel : Nat} {s s' : ImportState}

theorem processMdastNode_keeps (fresh : FreshIds ids pageId) (wf : s.WellFormed ids pageId)
    {p : String} (known : p ∈ s.document.blocks.keys) {node : Node}
    {listType : Option Node.ListType} {startNumber : Option Nat}
    (walked :
      processMdastNode toMdast ids fuel s node (some p) none listType startNumber = .ok s') :
    KeepsBut p s s' :=
  .of_traced fresh wf (fun _ same => (Option.some.inj same).symm)
    (walked ▸ (walk_traced toMdast ids fuel).1 ⟨s, _⟩ node [] (some p) listType startNumber none
      (Replays.replayLog _))
    ((walk_appends toMdast ids fresh fuel).1 _ node [] (some p) listType startNumber
      fun _ same => Option.some.inj same ▸ wf.drawn known)

theorem processBlockContent_keeps (fresh : FreshIds ids pageId) (wf : s.WellFormed ids pageId)
    {blockId : String} (known : blockId ∈ s.document.blocks.keys) {node : Node}
    {listType : Option Node.ListType} {startNumber : Option Nat}
    (walked : processBlockContent toMdast ids fuel s node blockId listType startNumber = .ok s') :
    KeepsBut blockId s s' :=
  .of_traced fresh wf (fun _ => id)
    (walked ▸ (walk_traced toMdast ids fuel).2.1 ⟨s, _⟩ node blockId [] listType startNumber
      (Replays.replayLog _))
    ((walk_appends toMdast ids fresh fuel).2.1 _ node blockId [] listType startNumber
      (wf.drawn known))

theorem processToggleBody_keeps (fresh : FreshIds ids pageId) (wf : s.WellFormed ids pageId)
    {toggleId : String} (known : toggleId ∈ s.document.blocks.keys) {body : String}
    (walked : processToggleBody toMdast ids fuel s toggleId body = .ok s') :
    KeepsBut toggleId s s' :=
  .of_traced fresh wf (fun _ => id)
    (walked ▸ (walk_traced toMdast ids fuel).2.2.2.1 ⟨s, _⟩ toggleId body [] (Replays.replayLog _))
    ((walk_appends toMdast ids fresh fuel).2.2.2.1 _ toggleId body [] (wf.drawn known))

end Calls

section Refines

variable (toMdast : String → Option (List Node)) (ids : Nat → String) (pageId : String)

/-- `processMdastNode` under a text-bearing parent adds `nodeTrees` under it. -/
def NodeRefines (fuel : Nat) : Prop :=
  ∀ s node p listType startNumber, s.WellFormed ids pageId → s.TextBlock p →
    Simulates (Adds ids p s)
      (processMdastNode toMdast ids fuel s node (some p) none listType startNumber)
      (nodeTrees toMdast fuel node listType startNumber)

def ContentRefines (fuel : Nat) : Prop :=
  ∀ s node id listType startNumber, s.WellFormed ids pageId → s.TextBlock id →
    Simulates (Adds ids id s) (processBlockContent toMdast ids fuel s node id listType startNumber)
      (contentTrees toMdast fuel node listType startNumber)

def ChildrenRefines (fuel : Nat) : Prop :=
  ∀ s p pending opened children listType startNumber base lo delta, s.WellFormed ids pageId →
    s.TextBlock p → pending.Owned s → OpenMatches ids s p base lo delta pending opened →
    Simulates (AddsAfter ids p base lo delta)
      (processMdastNodeChildren toMdast ids fuel s (some p) pending children listType startNumber)
      (siblingTrees toMdast fuel opened children listType startNumber)

def ToggleBodyRefines (fuel : Nat) : Prop :=
  ∀ s toggleId body, s.WellFormed ids pageId → s.TextBlock toggleId →
    Simulates (Adds ids toggleId s) (processToggleBody toMdast ids fuel s toggleId body)
      (toggleBodyTrees toMdast fuel body)

def RowsRefines (fuel : Nat) : Prop :=
  ∀ s tableId align rowIndex rows, s.WellFormed ids pageId → tableId ∈ s.document.blocks.keys →
    Simulates (Adds ids tableId s)
      (processTableRows toMdast ids fuel s tableId align rowIndex rows)
      (rowTrees toMdast fuel align rowIndex rows)

def RowRefines (fuel : Nat) : Prop :=
  ∀ s cells rowIndex tableId align, s.WellFormed ids pageId → tableId ∈ s.document.blocks.keys →
    Simulates (Adds ids tableId s)
      (processTableRow toMdast ids fuel s cells rowIndex tableId align)
      (rowTree toMdast fuel cells rowIndex align)

def CellsRefines (fuel : Nat) : Prop :=
  ∀ s cells rowId rowIndex colIndex align, s.WellFormed ids pageId →
    rowId ∈ s.document.blocks.keys →
    Simulates (Adds ids rowId s)
      (processTableCells toMdast ids fuel s cells rowId rowIndex colIndex align)
      (cellTrees toMdast fuel cells rowIndex colIndex align)

def ColumnsRefines (fuel : Nat) : Prop :=
  ∀ s columnsId bodyRows colIndices, s.WellFormed ids pageId →
    columnsId ∈ s.document.blocks.keys → colIndices.Pairwise (· < ·) →
    Simulates (Adds ids columnsId s)
      (processNotionColumns toMdast ids fuel s columnsId bodyRows colIndices)
      (columnTrees toMdast fuel bodyRows colIndices)

def ColumnRowsRefines (fuel : Nat) : Prop :=
  ∀ s columnId colIndex rows, s.WellFormed ids pageId → columnId ∈ s.document.blocks.keys →
    Simulates (Adds ids columnId s)
      (processNotionColumnRows toMdast ids fuel s columnId colIndex rows)
      (columnRowTrees toMdast fuel colIndex rows)

end Refines

section Steps

variable {toMdast : String → Option (List Node)} {ids : Nat → String} {pageId : String}
  {fuel : Nat} {s : ImportState} {p : String}

theorem Simulates.sequence (fresh : FreshIds ids pageId) (wf : s.WellFormed ids pageId)
    (known : p ∈ s.document.blocks.keys) {first : Except Fault ImportState}
    {firstTree : Except Fault Contribution} {rest : ImportState → Except Fault ImportState}
    {restTree : Except Fault Contribution}
    (firstRefines : Simulates (Adds ids p s) first firstTree)
    (firstGrows : Returns (Grows ids pageId s) first)
    (restRefines : ∀ s1, Grows ids pageId s s1 → Simulates (Adds ids p s1) (rest s1) restTree)
    (restFrame : ∀ s1 s2, Grows ids pageId s s1 → rest s1 = .ok s2 →
      Grows ids pageId s1 s2 ∧ KeepsBut p s1 s2) :
    Simulates (Adds ids p s) (first >>= rest)
      (firstTree >>= fun c => restTree >>= fun c' => pure (c ++ c')) :=
  firstRefines.bind_ok fun s1 _ walked added =>
    have grows := firstGrows s1 walked
    (restRefines s1 grows).map_right fun s2 _ walked' added' =>
      have frame := restFrame s1 s2 grows walked'
      AddsAfter.append grows.1 frame.1 frame.2 (grows.issued_le wf)
        (fun _ after => drawn_ne fresh (wf.drawn known) after) added added'

theorem Simulates.sequence_map (fresh : FreshIds ids pageId) (wf : s.WellFormed ids pageId)
    (known : p ∈ s.document.blocks.keys) {first : Except Fault ImportState} {β : Type}
    {firstTree : Except Fault β} {f : β → Contribution}
    {rest : ImportState → Except Fault ImportState} {restTree : Except Fault Contribution}
    (firstRefines : Simulates (Adds ids p s) first (firstTree >>= fun b => pure (f b)))
    (firstGrows : Returns (Grows ids pageId s) first)
    (restRefines : ∀ s1, Grows ids pageId s s1 → Simulates (Adds ids p s1) (rest s1) restTree)
    (restFrame : ∀ s1 s2, Grows ids pageId s s1 → rest s1 = .ok s2 →
      Grows ids pageId s1 s2 ∧ KeepsBut p s1 s2) :
    Simulates (Adds ids p s) (first >>= rest)
      (firstTree >>= fun b => restTree >>= fun c' => pure (f b ++ c')) := by
  simpa only [bind_assoc, pure_bind] using
    Simulates.sequence fresh wf known firstRefines firstGrows restRefines restFrame

theorem ChildrenRefines.under (children : ChildrenRefines toMdast ids pageId fuel)
    (wf : s.WellFormed ids pageId) (owner : s.TextBlock p) (nodes : List Node)
    (listType : Option Node.ListType) (startNumber : Option Nat) :
    Simulates (Adds ids p s)
      (processMdastNodeChildren toMdast ids fuel s (some p) .none nodes listType startNumber)
      (siblingTrees toMdast fuel .none nodes listType startNumber) :=
  children s p .none .none nodes listType startNumber _ _ _ wf owner trivial ⟨rfl, rfl, rfl⟩

theorem toggleBodyRefines_succ (children : ChildrenRefines toMdast ids pageId fuel) :
    ToggleBodyRefines toMdast ids pageId (fuel + 1) := by
  intro s toggleId body wf owner
  simp only [processToggleBody, toggleBodyTrees]
  by_cases blank : (RustStr.trim body).isEmpty
  · simp only [blank, if_true]
    exact Adds.refl toggleId s
  · simp only [blank]
    cases toMdast body with
    | some nodes => exact children.under wf owner nodes none none
    | none => exact Adds.refl toggleId s

theorem rowsRefines_succ (fresh : FreshIds ids pageId) (row : RowRefines toMdast ids pageId fuel)
    (rows : RowsRefines toMdast ids pageId fuel) : RowsRefines toMdast ids pageId (fuel + 1) := by
  intro s tableId align rowIndex tableRows wf known
  obtain ⟨-, -, -, -, rowsGrow, rowGrows, -, -, -⟩ := walk_wellFormed toMdast ids pageId fresh fuel
  cases tableRows with
  | nil => exact Adds.refl tableId s
  | cons first rest =>
      rw [processTableRows_succ]
      simp only [rowTrees]
      have restRefines := fun s1 (grows : Grows ids pageId s s1) =>
        rows s1 tableId align (rowIndex + 1) rest grows.1 (grows.mem_keys known)
      have restFrame := fun s1 s2 (grows : Grows ids pageId s s1) walked =>
        And.intro (rowsGrow s1 tableId align (rowIndex + 1) rest grows.1 (grows.mem_keys known) s2
          walked) (processTableRows_keeps fresh grows.1 (grows.mem_keys known) walked)
      cases tableRowOf first with
      | some cells =>
          exact .sequence fresh wf known (row s cells rowIndex tableId align wf known)
            (rowGrows s cells rowIndex tableId align wf known) restRefines restFrame
      | none =>
          exact .sequence fresh wf known (Adds.refl tableId s) (.ok (.refl wf)) restRefines
            restFrame

theorem rowRefines_succ (fresh : FreshIds ids pageId)
    (cells : CellsRefines toMdast ids pageId fuel) : RowRefines toMdast ids pageId (fuel + 1) := by
  intro s rowCells rowIndex tableId align wf known
  obtain ⟨-, -, -, -, -, -, cellsGrow, -, -⟩ := walk_wellFormed toMdast ids pageId fresh fuel
  have made := wf.made fresh known (createSimpleTableRowBlock (ids s.issued) tableId) rfl rfl rfl
  have rowKnown := HashMap.mem_keys_of_get? made.found
  exact (cells _ rowCells (ids s.issued) rowIndex 0 align made.grows.1 rowKnown).map_right
    fun s1 _ walked added => Adds.made fresh wf known made
      (cellsGrow _ _ _ _ _ _ made.grows.1 rowKnown s1 walked)
      (processTableCells_keeps fresh made.grows.1 rowKnown walked) added

theorem cellsRefines_succ (fresh : FreshIds ids pageId)
    (children : ChildrenRefines toMdast ids pageId fuel)
    (cells : CellsRefines toMdast ids pageId fuel) :
    CellsRefines toMdast ids pageId (fuel + 1) := by
  intro s rowCells rowId rowIndex colIndex align wf known
  obtain ⟨-, -, childrenGrow, -, -, -, cellsGrow, -, -⟩ :=
    walk_wellFormed toMdast ids pageId fresh fuel
  cases rowCells with
  | nil => exact Adds.refl rowId s
  | cons cell rest =>
      rw [processTableCells_succ]
      simp only [cellTrees]
      have restRefines := fun s1 (grows : Grows ids pageId s s1) =>
        cells s1 rest rowId rowIndex (colIndex + 1) align grows.1 (grows.mem_keys known)
      have restFrame := fun s1 s2 (grows : Grows ids pageId s s1) walked =>
        And.intro (cellsGrow s1 rest rowId rowIndex (colIndex + 1) align grows.1
          (grows.mem_keys known) s2 walked)
          (processTableCells_keeps fresh grows.1 (grows.mem_keys known) walked)
      cases tableCellOf cell with
      | none =>
          exact .sequence fresh wf known (Adds.refl rowId s) (.ok (.refl wf)) restRefines
            restFrame
      | some nodes =>
          have cellMade := wf.made fresh known
            (createSimpleTableCellBlock (ids s.issued) rowId rowIndex colIndex align) rfl rfl rfl
          have cellKnown := HashMap.mem_keys_of_get? cellMade.found
          have paragraphMade := cellMade.grows.1.made fresh cellKnown
            (createBlock (ids (s.issued + 1)) (.paragraph []) (some (ids s.issued)) none none)
            rfl rfl rfl
          have paragraphKnown := HashMap.mem_keys_of_get? paragraphMade.found
          have loopFrame := fun s1 walked => And.intro
            (childrenGrow _ _ .none nodes none none paragraphMade.grows.1
              ⟨_, paragraphMade.found, rfl, rfl⟩ trivial s1 walked)
            (processMdastNodeChildren_keeps fresh paragraphMade.grows.1 paragraphKnown walked)
          simp only [bind_assoc, pure_bind]
          refine .sequence_map fresh wf known
            ((children.under paragraphMade.grows.1 ⟨_, paragraphMade.found, rfl, rfl⟩ nodes none
              none).map_right fun s1 _ walked added => ?_)
            (fun s1 walked =>
              cellMade.grows.trans (paragraphMade.grows.trans (loopFrame s1 walked).1))
            restRefines restFrame
          have frame := loopFrame s1 walked
          exact Adds.made fresh wf known cellMade (paragraphMade.grows.trans frame.1)
            (paragraphMade.keeps.trans paragraphMade.grows.2 frame.2
              (cellMade.grows.1.not_mem_keys fresh))
            (Adds.made fresh cellMade.grows.1 cellKnown paragraphMade frame.1 frame.2 added)

theorem columnsRefines_succ (fresh : FreshIds ids pageId)
    (columnRows : ColumnRowsRefines toMdast ids pageId fuel)
    (columns : ColumnsRefines toMdast ids pageId fuel) :
    ColumnsRefines toMdast ids pageId (fuel + 1) := by
  intro s columnsId bodyRows colIndices wf known sorted
  obtain ⟨-, -, -, -, -, -, -, columnsGrow, columnRowsGrow⟩ :=
    walk_wellFormed toMdast ids pageId fresh fuel
  cases colIndices with
  | nil => exact Adds.refl columnsId s
  | cons colIndex rest =>
      have made := wf.made fresh known
        (containerBlock .simpleColumn (ids s.issued) HashMap.empty columnsId) rfl rfl rfl
      have columnKnown := HashMap.mem_keys_of_get? made.found
      have restSorted := (List.pairwise_cons.mp sorted).2
      exact (columnRows _ (ids s.issued) colIndex bodyRows made.grows.1 columnKnown).bind_ok
        fun s1 _ walked added =>
          have filled := columnRowsGrow _ _ _ _ made.grows.1 columnKnown s1 walked
          have grows := made.grows.trans filled
          (columns s1 columnsId bodyRows rest grows.1 (grows.mem_keys known) restSorted).map_right
            fun s2 _ walked' added' => AddsAfter.append grows.1
              (columnsGrow _ _ _ _ grows.1 (grows.mem_keys known) s2 walked')
              (processNotionColumns_keeps fresh grows.1 (grows.mem_keys known) restSorted walked')
              (grows.issued_le wf) (fun _ after => drawn_ne fresh (wf.drawn known) after)
              (Adds.made fresh wf known made filled
                (processNotionColumnRows_keeps fresh made.grows.1 columnKnown walked) added) added'

theorem columnRowTrees_succ (fuel colIndex : Nat) (row : Node) (rows : List Node) :
    columnRowTrees toMdast (fuel + 1) colIndex (row :: rows) = (do
      let first ← match columnCell colIndex row with
        | some children =>
            if isTableCellEmpty children then .ok .empty
            else do
              let paragraph ← siblingTrees toMdast fuel .none children none none
              pure (.child (paragraph.tree BlockType.paragraph.toString HashMap.empty))
        | none => .ok .empty
      let second ← columnRowTrees toMdast fuel colIndex rows
      pure (first ++ second)) := by
  cases row
  case tableRow cells =>
    simp only [columnRowTrees, columnCell]
    cases cells[colIndex]? with
    | none => rfl
    | some cell => cases cell <;> rfl
  all_goals rfl

theorem columnRowsRefines_succ (fresh : FreshIds ids pageId)
    (children : ChildrenRefines toMdast ids pageId fuel)
    (columnRows : ColumnRowsRefines toMdast ids pageId fuel) :
    ColumnRowsRefines toMdast ids pageId (fuel + 1) := by
  intro s columnId colIndex bodyRows wf known
  obtain ⟨-, -, childrenGrow, -, -, -, -, -, columnRowsGrow⟩ :=
    walk_wellFormed toMdast ids pageId fresh fuel
  cases bodyRows with
  | nil => exact Adds.refl columnId s
  | cons first rest =>
      rw [processNotionColumnRows_succ, columnRowTrees_succ]
      have restRefines := fun s1 (grows : Grows ids pageId s s1) =>
        columnRows s1 columnId colIndex rest grows.1 (grows.mem_keys known)
      have restFrame := fun s1 s2 (grows : Grows ids pageId s s1) walked =>
        And.intro (columnRowsGrow s1 columnId colIndex rest grows.1 (grows.mem_keys known) s2
          walked) (processNotionColumnRows_keeps fresh grows.1 (grows.mem_keys known) walked)
      cases columnCell colIndex first with
      | none =>
          exact .sequence fresh wf known (Adds.refl columnId s) (.ok (.refl wf)) restRefines
            restFrame
      | some nodes =>
          by_cases empty : isTableCellEmpty nodes
          · simp only [empty, if_true]
            exact .sequence fresh wf known (Adds.refl columnId s) (.ok (.refl wf)) restRefines
              restFrame
          · simp only [empty, Bool.false_eq_true, if_false, bind_assoc, pure_bind]
            have made := wf.made fresh known
              (createBlock (ids s.issued) (.paragraph []) (some columnId) none none) rfl rfl rfl
            have paragraphKnown := HashMap.mem_keys_of_get? made.found
            have loopFrame := fun s1 walked => And.intro
              (childrenGrow _ _ .none nodes none none made.grows.1 ⟨_, made.found, rfl, rfl⟩ trivial
                s1 walked)
              (processMdastNodeChildren_keeps fresh made.grows.1 paragraphKnown walked)
            exact .sequence_map fresh wf known
              ((children.under made.grows.1 ⟨_, made.found, rfl, rfl⟩ nodes none none).map_right
                fun s1 _ walked added => Adds.made fresh wf known made (loopFrame s1 walked).1
                  (loopFrame s1 walked).2 added)
              (fun s1 walked => made.grows.trans (loopFrame s1 walked).1) restRefines restFrame

theorem contentRefines_succ (fresh : FreshIds ids pageId)
    (children : ChildrenRefines toMdast ids pageId fuel)
    (rows : RowsRefines toMdast ids pageId fuel) :
    ContentRefines toMdast ids pageId (fuel + 1) := by
  intro s node blockId listType startNumber wf owner
  obtain ⟨-, -, childrenGrow, -, -, -, -, -, -⟩ := walk_wellFormed toMdast ids pageId fresh fuel
  rw [processBlockContent_succ]
  simp only [contentTrees]
  generalize blockContent node = content
  cases content with
  | children nodes => exact children.under wf owner nodes none startNumber
  | headed head rest =>
      have restRefines := fun s1 (grows : Grows ids pageId s s1) =>
        children.under grows.1 (grows.textBlock owner) rest listType startNumber
      have restFrame := fun s1 s2 (grows : Grows ids pageId s s1) walked =>
        And.intro (childrenGrow s1 blockId .none rest listType startNumber grows.1
          (grows.textBlock owner) trivial s2 walked)
          (processMdastNodeChildren_keeps fresh grows.1 (grows.mem_keys owner.mem_keys) walked)
      cases head with
      | some para =>
          exact .sequence fresh wf owner.mem_keys (children.under wf owner para none startNumber)
            (childrenGrow _ _ _ _ _ _ wf owner trivial) restRefines restFrame
      | none =>
          exact .sequence fresh wf owner.mem_keys (Adds.refl blockId s) (.ok (.refl wf))
            restRefines restFrame
  | done => exact Adds.refl blockId s
  | text value => exact Adds.text blockId s [⟨value, []⟩]
  | rows align tableRows => exact rows s blockId align 0 tableRows wf owner.mem_keys
  | unreachable => exact rfl

theorem nodeRefines_succ (fresh : FreshIds ids pageId)
    (children : ChildrenRefines toMdast ids pageId fuel)
    (content : ContentRefines toMdast ids pageId fuel)
    (columns : ColumnsRefines toMdast ids pageId fuel) :
    NodeRefines toMdast ids pageId (fuel + 1) := by
  intro s node p listType startNumber wf owner
  obtain ⟨-, contentGrow, -, -, -, -, -, columnsGrow, -⟩ :=
    walk_wellFormed toMdast ids pageId fresh fuel
  have known := owner.mem_keys
  rw [processMdastNode.eq_2]
  simp only [nodeTrees]
  by_cases inline : node.isInlineNode
  · simp only [inline, if_true]
    exact ⟨[], by simp [DocumentData.processInlineMdastNode], trivial,
      by simp [DocumentData.processInlineMdastNode]⟩
  simp only [inline, Bool.false_eq_true, if_false]
  by_cases closing : isClosingSentinel node
  · simp only [closing, if_true]
    exact Adds.refl p s
  simp only [closing, Bool.false_eq_true, if_false]
  generalize node.getMdastNodeInfo = info
  cases info with
  | some info =>
      obtain ⟨nodes, listType', startNumber'⟩ := info
      exact children.under wf owner nodes (some listType') startNumber'
  | none =>
      obtain ⟨url, found⟩ := imageOf_ok node
      simp only [found, ok_bind]
      cases url with
      | some url =>
          have made := wf.made fresh known (createImageBlock (ids s.issued) url p) rfl rfl rfl
          exact Adds.made fresh wf known made (.refl made.grows.1) (.refl _ _) (Adds.refl _ _)
      | none =>
          cases notionColumnsOf node with
          | some info =>
              have made := wf.made fresh known
                (containerBlock .simpleColumns (ids s.issued) HashMap.empty p) rfl rfl rfl
              have columnsKnown := HashMap.mem_keys_of_get? made.found
              have sorted := List.pairwise_lt_range info.colCount
              exact (columns _ (ids s.issued) info.bodyRows (List.range info.colCount)
                made.grows.1 columnsKnown sorted).map_right fun s1 _ walked added =>
                  Adds.made fresh wf known made
                    (columnsGrow _ _ _ _ made.grows.1 columnsKnown s1 walked)
                    (processNotionColumns_keeps fresh made.grows.1 columnsKnown sorted walked) added
          | none =>
              have made := wf.made fresh known
                (createBlock (ids s.issued) node (some p) listType startNumber) rfl rfl
                (createBlock_ordinary _ _ _ _ _)
              have blockText : TextBlock _ (ids s.issued) := ⟨_, made.found, rfl, rfl⟩
              exact (content _ node (ids s.issued) listType startNumber made.grows.1
                blockText).map_right fun s1 _ walked added => Adds.made fresh wf known made
                  (contentGrow _ _ _ _ _ made.grows.1 blockText s1 walked)
                  (processBlockContent_keeps fresh made.grows.1 blockText.mem_keys walked) added

theorem childrenRefines_succ (fresh : FreshIds ids pageId)
    (node : NodeRefines toMdast ids pageId fuel)
    (children : ChildrenRefines toMdast ids pageId fuel)
    (body : ToggleBodyRefines toMdast ids pageId fuel) :
    ChildrenRefines toMdast ids pageId (fuel + 1) := by
  intro s p pending opened siblings listType startNumber base lo delta wf owner owned matched
  obtain ⟨nodeGrow, -, childrenGrow, bodyGrow, -, -, -, -, -⟩ :=
    walk_wellFormed toMdast ids pageId fresh fuel
  have known := owner.mem_keys
  cases siblings with
  | nil =>
      cases pending <;> cases opened <;> simp only [OpenMatches] at matched
      · obtain ⟨rfl, rfl, rfl⟩ := matched
        exact Adds.refl p s
      · exact matched.finish
      · exact matched.2.finish
  | cons n rest =>
      cases pending <;> cases opened <;> simp only [OpenMatches] at matched
      case none.none =>
        obtain ⟨rfl, rfl, rfl⟩ := matched
        simp only [processMdastNodeChildren, siblingTrees]
        generalize classifySibling n = sibling
        cases sibling with
        | closing => exact children.under wf owner rest listType startNumber
        | aside callout =>
            have made := wf.madeWithoutEntry fresh known
              (calloutBlock (ids s.issued) callout.icon (some p)) rfl rfl rfl
            have calloutText : TextBlock _ (ids s.issued) := ⟨_, made.found, rfl, rfl⟩
            have written := made.grows.1.insertMarkdownAsInlineDelta toMdast calloutText
              callout.content
            exact children _ p (.callout (ids s.issued)) (.callout _) rest listType startNumber
              _ _ _ written.1 ((made.grows.trans written).textBlock owner)
              (written.textBlock calloutText)
              ((made.openAt fresh wf known).extend fresh made.grows.1 (made.grows.mem_keys known)
                written (.markdown _ _ _ _) (.markdown _ _ _ _))
        | details value =>
            have made := wf.madeWithoutEntry fresh known
              (containerBlock .toggleList (ids s.issued) HashMap.empty p) rfl rfl rfl
            have toggleText : TextBlock _ (ids s.issued) := ⟨_, made.found, rfl, rfl⟩
            obtain ⟨parsed, found⟩ := parseDetailsHtml_ok value
            simp only [found, ok_bind]
            cases parsed with
            | none =>
                exact children _ p (.toggle (ids s.issued) false) (.toggle _ false) rest listType
                  startNumber _ _ _ made.grows.1 (made.grows.textBlock owner) toggleText
                  ⟨rfl, made.openAt fresh wf known⟩
            | some details =>
                have written := made.grows.1.insertMarkdownAsInlineDelta toMdast toggleText
                  details.summary
                have summarized := (made.openAt fresh wf known).extend fresh made.grows.1
                  (made.grows.mem_keys known) written (.markdown _ _ _ _) (.markdown _ _ _ _)
                simp only [bind_assoc, pure_bind]
                exact (body _ (ids s.issued) details.body written.1
                  (written.textBlock toggleText)).bind_ok fun s2 _ walked added =>
                    have grows := bodyGrow _ _ _ written.1 (written.textBlock toggleText) s2 walked
                    children s2 p (.toggle (ids s.issued) true) (.toggle _ true) rest listType
                      startNumber _ _ _ grows.1
                      (((made.grows.trans written).trans grows).textBlock owner)
                      (grows.textBlock (written.textBlock toggleText))
                      ⟨rfl, summarized.extend fresh written.1
                        ((made.grows.trans written).mem_keys known) grows
                        (processToggleBody_keeps fresh written.1 (written.mem_keys
                          (HashMap.mem_keys_of_get? made.found)) walked) added⟩
        | other =>
            exact .sequence fresh wf known (node s n p listType startNumber wf owner)
              (nodeGrow s n p listType startNumber wf owner)
              (fun s1 grows =>
                children.under grows.1 (grows.textBlock owner) rest listType startNumber)
              (fun s1 s2 grows walked => ⟨childrenGrow s1 p .none rest listType startNumber grows.1
                (grows.textBlock owner) trivial s2 walked,
                processMdastNodeChildren_keeps fresh grows.1 (grows.mem_keys known) walked⟩)
      case callout.callout calloutId tree =>
        simp only [processMdastNodeChildren, siblingTrees]
        by_cases closing : isHtmlTag "</aside>" n
        · simp only [closing, if_true]
          exact (children.under wf owner rest listType startNumber).map_right
            fun s' _ walked added => matched.finish.append wf
              (childrenGrow s p .none rest listType startNumber wf owner trivial s' walked)
              (processMdastNodeChildren_keeps fresh wf known walked) matched.before.le
              matched.parent added
        · simp only [closing, Bool.false_eq_true, if_false]
          exact (node s n calloutId listType startNumber wf owned).bind_ok fun s1 _ walked added =>
            have grows := nodeGrow s n calloutId listType startNumber wf owned s1 walked
            children s1 p (.callout calloutId) (.callout _) rest listType startNumber base lo delta
              grows.1 (grows.textBlock owner) (grows.textBlock owned)
              (matched.extend fresh wf known grows
                (processMdastNode_keeps fresh wf owned.mem_keys walked) added)
      case toggle.toggle toggleId written tree written' =>
        obtain ⟨rfl, opened⟩ := matched
        simp only [processMdastNodeChildren, siblingTrees]
        generalize classifyToggleSibling written n = sibling
        cases sibling with
        | close =>
            exact (children.under wf owner rest listType startNumber).map_right
              fun s' _ walked added => opened.finish.append wf
                (childrenGrow s p .none rest listType startNumber wf owner trivial s' walked)
                (processMdastNodeChildren_keeps fresh wf known walked) opened.before.le
                opened.parent added
        | summary value =>
            obtain ⟨extracted, found⟩ := extractTagContent_ok value "summary"
            simp only [found, ok_bind]
            rcases extracted with _ | ⟨summary, after⟩
            · exact children s p (.toggle toggleId written) (.toggle tree written) rest listType
                startNumber base lo delta wf owner owned ⟨rfl, opened⟩
            · have summarized := wf.insertMarkdownAsInlineDelta toMdast owned summary
              have extended := opened.extend fresh wf known summarized (.markdown _ _ _ _)
                (.markdown _ _ _ _)
              exact (body _ toggleId (RustStr.trim after) summarized.1
                (summarized.textBlock owned)).bind_ok fun s2 _ walked added =>
                  have grows := bodyGrow _ _ _ summarized.1 (summarized.textBlock owned) s2 walked
                  children s2 p (.toggle toggleId true) (.toggle _ true) rest listType startNumber
                    base lo delta grows.1 ((summarized.trans grows).textBlock owner)
                    (grows.textBlock (summarized.textBlock owned))
                    ⟨rfl, extended.extend fresh summarized.1 (summarized.mem_keys known) grows
                      (processToggleBody_keeps fresh summarized.1 (summarized.mem_keys
                        owned.mem_keys) walked) added⟩
        | other =>
            exact (node s n toggleId listType startNumber wf owned).bind_ok fun s1 _ walked added =>
              have grows := nodeGrow s n toggleId listType startNumber wf owned s1 walked
              children s1 p (.toggle toggleId written) (.toggle _ written) rest listType startNumber
                base lo delta grows.1 (grows.textBlock owner) (grows.textBlock owned)
                ⟨rfl, opened.extend fresh wf known grows
                  (processMdastNode_keeps fresh wf owned.mem_keys walked) added⟩

end Steps

/-- Every call of the walk adds, under the block it works for, what the tree
semantics says, and fails where the semantics fails, with the same fault. -/
theorem walk_refines (toMdast : String → Option (List Node)) (ids : Nat → String)
    (pageId : String) (fresh : FreshIds ids pageId) (fuel : Nat) :
    NodeRefines toMdast ids pageId fuel ∧ ContentRefines toMdast ids pageId fuel ∧
      ChildrenRefines toMdast ids pageId fuel ∧ ToggleBodyRefines toMdast ids pageId fuel ∧
      RowsRefines toMdast ids pageId fuel ∧ RowRefines toMdast ids pageId fuel ∧
      CellsRefines toMdast ids pageId fuel ∧ ColumnsRefines toMdast ids pageId fuel ∧
      ColumnRowsRefines toMdast ids pageId fuel := by
  induction fuel with
  | zero => refine ⟨?_, ?_, ?_, ?_, ?_, ?_, ?_, ?_, ?_⟩ <;> intro s <;> intros <;> exact rfl
  | succ fuel inductionHypothesis =>
      obtain ⟨node, content, children, body, rows, row, cells, columns, columnRows⟩ :=
        inductionHypothesis
      exact ⟨nodeRefines_succ fresh children content columns,
        contentRefines_succ fresh children rows,
        childrenRefines_succ fresh node children body, toggleBodyRefines_succ children,
        rowsRefines_succ fresh row rows, rowRefines_succ fresh cells,
        cellsRefines_succ fresh children cells, columnsRefines_succ fresh columnRows columns,
        columnRowsRefines_succ fresh children columnRows⟩

/-- With fresh ids, `import` fails exactly when the tree semantics does, with
the same fault or the same parse error, and the page of the snapshot it returns
reads as the tree `importTree` gives. -/
theorem importMd_refines (importer : MDImporter) (ids : Nat → String) (pageId : String)
    (fresh : FreshIds ids pageId) (fuel : Nat) (md : String) :
    Simulates (Simulates fun d tree => Reads d (fun _ => True) pageId tree)
      (importer.importMd ids fuel pageId md) (importTree importer.toMdast fuel md) := by
  cases fuel with
  | zero =>
      rw [importMd_zero]
      unfold importTree
      cases importer.toMdast md <;> exact rfl
  | succ fuel =>
      rw [importMd_succ]
      unfold importTree
      cases importer.toMdast md with
      | none => exact rfl
      | some children =>
          have page : (pageState pageId children).document.blocks.get? pageId =
              some (createBlock pageId (.root children) none none none) :=
            (HashMap.get?_eq_some_iff _ _ _).mpr (by
              rw [pageState_blocks]
              exact List.mem_singleton_self _)
          have empty : (pageState pageId children).document.childrenOf pageId = [] := by
            simp [DocumentData.childrenOf, HashMap.get?, pageState_childrenMap, lookupEntry]
          have wf := pageState_wellFormed ids pageId children
          have owner := pageState_textBlock pageId children
          exact ((walk_refines importer.toMdast ids pageId fresh fuel).2.1 _ (.root children) pageId
            none none wf owner).bind_ok fun s _ walked ⟨added, listed, reads, written⟩ =>
              have grows := (walk_wellFormed importer.toMdast ids pageId fresh fuel).2.1 _ _ _ _ _
                wf owner s walked
              ⟨grows.2.shape (by rw [page]; rfl), written, by
                rw [listed, empty]
                exact reads.mono fun _ _ => trivial⟩

theorem importMd_refines_paragraph :
    FreshIds (fun n => ⟨List.replicate (n + 1) 'b'⟩) "P" ∧
      Simulates (Simulates fun d tree => Reads d (fun _ => True) "P" tree)
        ((⟨fun _ => some [.paragraph [.text "a"]]⟩ : MDImporter).importMd
          (fun n => ⟨List.replicate (n + 1) 'b'⟩) 10 "P" "a")
        (importTree (fun _ => some [.paragraph [.text "a"]]) 10 "a") :=
  ⟨freshIds_replicate 1, importMd_refines _ _ _ (freshIds_replicate 1) 10 "a"⟩

end MdImporter
