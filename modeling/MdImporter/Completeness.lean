import MdImporter.Refinement

/-!
# Every block is read once

`Reads` reads a block of a snapshot as a `BlockTree` by following children
lists. For the snapshots the walk builds, a reading of the page is complete and
never comes back to a block: the ids it visits are the document's blocks, each
once (`WellFormed.visited_perm`). With `importMd_refines` this makes the
snapshot `import` returns the tree of `importTree`, block for block.

The argument is the order the ids are drawn in. A listed block was drawn after
the block that lists it (`WellFormed.child_drawn_after`), so a reading of a
block never visits its parent, and the readings of two siblings could only meet
at a block listed by two parents, which `children_parent` rules out.
-/

namespace MdImporter

set_option autoImplicit false

mutual

/-- The number of blocks of a tree. -/
def BlockTree.size : BlockTree → Nat
  | .node _ _ _ children => BlockTree.sizeList children + 1

/-- The number of blocks of a list of trees. -/
def BlockTree.sizeList : List BlockTree → Nat
  | [] => 0
  | tree :: trees => tree.size + BlockTree.sizeList trees

end

namespace DocumentData

mutual

/-- The ids a reading of `k` as `tree` visits, in document order. -/
def visited (d : DocumentData) : String → BlockTree → List String
  | k, .node _ _ _ children => k :: d.visitedList (d.childrenOf k) children

/-- The ids a reading of `ks` as `trees`, one by one, visits. -/
def visitedList (d : DocumentData) : List String → List BlockTree → List String
  | k :: ks, tree :: trees => d.visited k tree ++ d.visitedList ks trees
  | _, _ => []

end

theorem mem_visited_self (d : DocumentData) (k : String) : ∀ tree, k ∈ d.visited k tree
  | .node .. => List.mem_cons_self _ _

theorem mem_childrenOf {d : DocumentData} {v c : String} :
    c ∈ d.childrenOf v ↔ ∃ children, d.meta.childrenMap.get? v = some children ∧ c ∈ children := by
  unfold childrenOf
  cases d.meta.childrenMap.get? v <;> simp

theorem exists_of_mem_visitedList {d : DocumentData} {y : String} :
    ∀ {ks : List String} {trees : List BlockTree}, y ∈ d.visitedList ks trees →
      ∃ k ∈ ks, ∃ tree, y ∈ d.visited k tree
  | k :: ks, tree :: trees, member => by
      rcases List.mem_append.mp member with first | rest
      · exact ⟨k, List.mem_cons_self _ _, tree, first⟩
      · obtain ⟨k', listed, tree', within⟩ := exists_of_mem_visitedList rest
        exact ⟨k', List.mem_cons_of_mem _ listed, tree', within⟩
  | [], [], member | [], _ :: _, member | _ :: _, [], member => absurd member (List.not_mem_nil _)

mutual

theorem mem_visited {d : DocumentData} {y : String} :
    ∀ {k : String} {tree : BlockTree}, y ∈ d.visited k tree →
      y = k ∨ ∃ v ∈ d.visited k tree, y ∈ d.childrenOf v
  | k, .node _ _ _ children, member => by
      rcases List.mem_cons.mp member with rfl | inner
      · exact .inl rfl
      · rcases mem_visitedList inner with listed | ⟨v, within, child⟩
        · exact .inr ⟨k, d.mem_visited_self _ _, listed⟩
        · exact .inr ⟨v, List.mem_cons_of_mem _ within, child⟩

theorem mem_visitedList {d : DocumentData} {y : String} :
    ∀ {ks : List String} {trees : List BlockTree}, y ∈ d.visitedList ks trees →
      y ∈ ks ∨ ∃ v ∈ d.visitedList ks trees, y ∈ d.childrenOf v
  | k :: ks, tree :: trees, member => by
      rcases List.mem_append.mp member with first | rest
      · rcases mem_visited first with rfl | ⟨v, within, child⟩
        · exact .inl (List.mem_cons_self _ _)
        · exact .inr ⟨v, List.mem_append_left _ within, child⟩
      · rcases mem_visitedList rest with listed | ⟨v, within, child⟩
        · exact .inl (List.mem_cons_of_mem _ listed)
        · exact .inr ⟨v, List.mem_append_right _ within, child⟩
  | [], [], member | [], _ :: _, member | _ :: _, [], member => absurd member (List.not_mem_nil _)

end

end DocumentData

section Reading

variable {d : DocumentData} {inside : String → Prop}

theorem ReadsList.mem_visitedList {c : String} :
    ∀ {ks : List String} {trees : List BlockTree}, ReadsList d inside ks trees → c ∈ ks →
      c ∈ d.visitedList ks trees
  | k :: ks, tree :: trees, ⟨_, _, rest⟩, listed => by
      rcases List.mem_cons.mp listed with rfl | later
      · exact List.mem_append_left _ (d.mem_visited_self c tree)
      · exact List.mem_append_right _ (ReadsList.mem_visitedList rest later)
  | [], _, _, listed => absurd listed (List.not_mem_nil c)
  | _ :: _, [], reads, _ => reads.elim

mutual

theorem Reads.closed {v c : String} :
    ∀ {k : String} {tree : BlockTree}, Reads d inside k tree → v ∈ d.visited k tree →
      c ∈ d.childrenOf v → c ∈ d.visited k tree
  | k, .node _ _ _ children, ⟨_, _, reads⟩, member, child => by
      refine List.mem_cons_of_mem _ ?_
      rcases List.mem_cons.mp member with rfl | inner
      · exact ReadsList.mem_visitedList reads child
      · exact ReadsList.closed reads inner child

theorem ReadsList.closed {v c : String} :
    ∀ {ks : List String} {trees : List BlockTree}, ReadsList d inside ks trees →
      v ∈ d.visitedList ks trees → c ∈ d.childrenOf v → c ∈ d.visitedList ks trees
  | k :: ks, tree :: trees, ⟨_, read, rest⟩, member, child => by
      rcases List.mem_append.mp member with first | later
      · exact List.mem_append_left _ (Reads.closed read first child)
      · exact List.mem_append_right _ (ReadsList.closed rest later child)
  | [], [], _, member, _ => absurd member (List.not_mem_nil _)
  | [], _ :: _, reads, _, _ | _ :: _, [], reads, _, _ => reads.elim

end

mutual

theorem Reads.length_visited :
    ∀ {k : String} {tree : BlockTree}, Reads d inside k tree →
      (d.visited k tree).length = tree.size
  | _, .node _ _ _ _, ⟨_, _, reads⟩ => congrArg (· + 1) (ReadsList.length_visitedList reads)

theorem ReadsList.length_visitedList :
    ∀ {ks : List String} {trees : List BlockTree}, ReadsList d inside ks trees →
      (d.visitedList ks trees).length = BlockTree.sizeList trees
  | _ :: _, _ :: _, ⟨_, read, rest⟩ => by
      rw [DocumentData.visitedList, List.length_append, Reads.length_visited read,
        ReadsList.length_visitedList rest, BlockTree.sizeList]
  | [], [], _ => rfl
  | [], _ :: _, reads | _ :: _, [], reads => reads.elim

end

end Reading

namespace ImportState

variable {ids : Nat → String} {pageId : String} {s : ImportState}

theorem WellFormed.child_drawn_after (wf : s.WellFormed ids pageId) (fresh : FreshIds ids pageId)
    {v c : String} (child : c ∈ s.document.childrenOf v) :
    ∃ n, c = ids n ∧ (v = pageId ∨ ∃ j < n, v = ids j) := by
  obtain ⟨children, listed, member⟩ := DocumentData.mem_childrenOf.mp child
  obtain ⟨n, before, rfl⟩ := wf.listed_drawn fresh listed member
  obtain ⟨block, found, placed⟩ := wf.children_parent v children listed (ids n) member
  obtain ⟨block', found', up⟩ := wf.parent_before n before
  rw [found, Option.some.injEq] at found'
  subst found'
  exact ⟨n, rfl, placed ▸ up⟩

theorem WellFormed.parent_unique (wf : s.WellFormed ids pageId) {v w c : String}
    (inV : c ∈ s.document.childrenOf v) (inW : c ∈ s.document.childrenOf w) : v = w := by
  obtain ⟨cv, listedV, memberV⟩ := DocumentData.mem_childrenOf.mp inV
  obtain ⟨cw, listedW, memberW⟩ := DocumentData.mem_childrenOf.mp inW
  obtain ⟨block, found, placed⟩ := wf.children_parent v cv listedV c memberV
  obtain ⟨block', found', placed'⟩ := wf.children_parent w cw listedW c memberW
  rw [found, Option.some.injEq] at found'
  rw [← placed, ← placed', found']

theorem WellFormed.pageId_not_mem_childrenOf (wf : s.WellFormed ids pageId)
    (fresh : FreshIds ids pageId) (v : String) : pageId ∉ s.document.childrenOf v := fun child =>
  let ⟨n, same, _⟩ := wf.child_drawn_after fresh child
  fresh.ne_pageId n same.symm

theorem WellFormed.listed_by_earlier (wf : s.WellFormed ids pageId) (fresh : FreshIds ids pageId)
    {n : Nat} (before : n < s.issued) :
    ∃ v, (v = pageId ∨ ∃ j < n, v = ids j) ∧ ids n ∈ s.document.childrenOf v := by
  obtain ⟨block, found, up⟩ := wf.parent_before n before
  obtain ⟨-, children, listed, member⟩ := wf.listed_once fresh before found
  exact ⟨block.parent, up, DocumentData.mem_childrenOf.mpr ⟨children, listed, member⟩⟩

theorem WellFormed.childrenOf_nodup (wf : s.WellFormed ids pageId) (fresh : FreshIds ids pageId)
    (v : String) : (s.document.childrenOf v).Nodup := by
  have all : (s.document.meta.childrenMap.entries.flatMap Prod.snd).Nodup :=
    wf.children_perm.nodup_iff.mpr ((List.nodup_range _).map fresh.injective)
  cases listed : s.document.meta.childrenMap.get? v with
  | none => simp [DocumentData.childrenOf, listed]
  | some children =>
      rw [DocumentData.childrenOf, listed, Option.getD_some]
      exact (List.nodup_flatMap.mp all).1 _ ((HashMap.get?_eq_some_iff _ _ _).mp listed)

theorem WellFormed.root_eq_of_pageId_mem (wf : s.WellFormed ids pageId)
    (fresh : FreshIds ids pageId) {c : String} {tree : BlockTree}
    (member : pageId ∈ s.document.visited c tree) : c = pageId := by
  rcases s.document.mem_visited member with same | ⟨v, -, child⟩
  · exact same.symm
  · exact absurd child (wf.pageId_not_mem_childrenOf fresh v)

theorem WellFormed.drawn_of_mem_visited (wf : s.WellFormed ids pageId)
    (fresh : FreshIds ids pageId) {k c y : String} (child : c ∈ s.document.childrenOf k)
    {tree : BlockTree} (member : y ∈ s.document.visited c tree) : ∃ n, y = ids n := by
  rcases s.document.mem_visited member with rfl | ⟨v, -, listed⟩
  · exact (wf.child_drawn_after fresh child).imp fun _ drawn => drawn.1
  · exact (wf.child_drawn_after fresh listed).imp fun _ drawn => drawn.1

theorem WellFormed.visited_drawn_after (wf : s.WellFormed ids pageId)
    (fresh : FreshIds ids pageId) {m : Nat} {tree : BlockTree} :
    ∀ n, ids n ∈ s.document.visited (ids m) tree → m ≤ n := by
  intro n
  induction n using Nat.strong_induction_on with
  | _ n inductionHypothesis =>
      intro member
      rcases s.document.mem_visited member with same | ⟨v, within, child⟩
      · exact (fresh.injective same).ge
      · obtain ⟨n', same, up⟩ := wf.child_drawn_after fresh child
        cases fresh.injective same
        rcases up with rfl | ⟨j, earlier, rfl⟩
        · exact absurd (wf.root_eq_of_pageId_mem fresh within) (fresh.ne_pageId m)
        · exact (inductionHypothesis j earlier within).trans earlier.le

theorem WellFormed.not_mem_visited_of_child (wf : s.WellFormed ids pageId)
    (fresh : FreshIds ids pageId) {k c : String} (child : c ∈ s.document.childrenOf k)
    (tree : BlockTree) : k ∉ s.document.visited c tree := fun member => by
  obtain ⟨n, rfl, up⟩ := wf.child_drawn_after fresh child
  rcases up with rfl | ⟨j, earlier, rfl⟩
  · exact fresh.ne_pageId n (wf.root_eq_of_pageId_mem fresh member)
  · exact Nat.not_le.mpr earlier (wf.visited_drawn_after fresh j member)

theorem WellFormed.visited_disjoint (wf : s.WellFormed ids pageId) (fresh : FreshIds ids pageId)
    {k c c' : String} (child : c ∈ s.document.childrenOf k) (child' : c' ∈ s.document.childrenOf k)
    (different : c ≠ c') (tree tree' : BlockTree) (y : String)
    (member : y ∈ s.document.visited c tree) : y ∉ s.document.visited c' tree' := by
  obtain ⟨n, rfl⟩ := wf.drawn_of_mem_visited fresh child member
  induction n using Nat.strong_induction_on with
  | _ n inductionHypothesis =>
      intro member'
      rcases s.document.mem_visited member with same | ⟨v, within, inV⟩ <;>
        rcases s.document.mem_visited member' with same' | ⟨w, within', inW⟩
      · exact different (same.symm.trans same')
      · cases wf.parent_unique child (same ▸ inW)
        exact wf.not_mem_visited_of_child fresh child' tree' within'
      · cases wf.parent_unique child' (same' ▸ inV)
        exact wf.not_mem_visited_of_child fresh child tree within
      · cases wf.parent_unique inV inW
        obtain ⟨n', same, up⟩ := wf.child_drawn_after fresh inV
        cases fresh.injective same
        rcases up with rfl | ⟨j, earlier, rfl⟩
        · exact wf.pageId_not_mem_childrenOf fresh k (wf.root_eq_of_pageId_mem fresh within ▸ child)
        · exact inductionHypothesis j earlier within within'

mutual

theorem WellFormed.visited_nodup (wf : s.WellFormed ids pageId) (fresh : FreshIds ids pageId) :
    ∀ (k : String) (tree : BlockTree), (s.document.visited k tree).Nodup
  | k, .node _ _ _ children => List.nodup_cons.mpr ⟨fun member =>
      let ⟨_, listed, tree, within⟩ := DocumentData.exists_of_mem_visitedList member
      wf.not_mem_visited_of_child fresh listed tree within,
    WellFormed.visitedList_nodup wf fresh k _ children (List.Sublist.refl _)⟩

theorem WellFormed.visitedList_nodup (wf : s.WellFormed ids pageId) (fresh : FreshIds ids pageId)
    (k : String) : ∀ (ks : List String) (trees : List BlockTree), ks.Sublist (s.document.childrenOf k) →
      (s.document.visitedList ks trees).Nodup
  | c :: ks, tree :: trees, sub => by
      have distinct : c ∉ ks := (List.nodup_cons.mp ((wf.childrenOf_nodup fresh k).sublist sub)).1
      refine List.nodup_append.mpr ⟨WellFormed.visited_nodup wf fresh c tree,
        WellFormed.visitedList_nodup wf fresh k ks trees ((List.sublist_cons_self c ks).trans sub),
        fun y member member' => ?_⟩
      obtain ⟨c', listed', tree', within'⟩ := DocumentData.exists_of_mem_visitedList member'
      exact wf.visited_disjoint fresh (sub.subset (List.mem_cons_self c ks))
        (sub.subset (List.mem_cons_of_mem c listed')) (fun same => distinct (same ▸ listed'))
        tree tree' y member within'
  | [], [], _ | [], _ :: _, _ | _ :: _, [], _ => List.nodup_nil

end

theorem WellFormed.mem_keys_of_mem_visited (wf : s.WellFormed ids pageId) {tree : BlockTree}
    {y : String} (member : y ∈ s.document.visited pageId tree) : y ∈ s.document.blocks.keys := by
  rcases s.document.mem_visited member with rfl | ⟨v, -, child⟩
  · obtain ⟨block, found, -⟩ := wf.page_root
    exact HashMap.mem_keys_of_get? found
  · obtain ⟨children, listed, listedY⟩ := DocumentData.mem_childrenOf.mp child
    obtain ⟨block, found, -⟩ := wf.children_parent v children listed y listedY
    exact HashMap.mem_keys_of_get? found

theorem WellFormed.mem_visited_of_mem_keys (wf : s.WellFormed ids pageId)
    (fresh : FreshIds ids pageId) {inside : String → Prop} {tree : BlockTree}
    (reads : Reads s.document inside pageId tree) {key : String}
    (known : key ∈ s.document.blocks.keys) : key ∈ s.document.visited pageId tree := by
  have drawn : ∀ n < s.issued, ids n ∈ s.document.visited pageId tree := by
    intro n
    induction n using Nat.strong_induction_on with
    | _ n inductionHypothesis =>
        intro before
        obtain ⟨v, up, listed⟩ := wf.listed_by_earlier fresh before
        refine Reads.closed reads ?_ listed
        rcases up with rfl | ⟨j, earlier, rfl⟩
        · exact s.document.mem_visited_self _ tree
        · exact inductionHypothesis j earlier (earlier.trans before)
  rw [wf.keys_eq] at known
  rcases List.mem_cons.mp known with rfl | listed
  · exact s.document.mem_visited_self _ tree
  · obtain ⟨n, before, rfl⟩ := List.mem_map.mp listed
    exact drawn n (List.mem_range.mp before)

/-- In every well-formed state, a reading of the page visits each block of the
document once. -/
theorem WellFormed.visited_perm (wf : s.WellFormed ids pageId) (fresh : FreshIds ids pageId)
    {inside : String → Prop} {tree : BlockTree} (reads : Reads s.document inside pageId tree) :
    (s.document.visited pageId tree).Perm s.document.blocks.keys :=
  (List.perm_ext_iff_of_nodup (wf.visited_nodup fresh pageId tree) s.document.blocks.nodup).mpr
    fun _ => ⟨wf.mem_keys_of_mem_visited, wf.mem_visited_of_mem_keys fresh reads⟩

end ImportState

/-- With fresh ids, a tree the page of an imported snapshot reads as accounts for
all of it: the reading visits every block once, and the snapshot has as many
blocks as the tree. -/
theorem importMd_readsEachBlockOnce (importer : MDImporter) (ids : Nat → String)
    (pageId : String) (fresh : FreshIds ids pageId) (fuel : Nat) (md : String) (d : DocumentData)
    (imported : importer.importMd ids fuel pageId md = .ok (.ok d)) (tree : BlockTree)
    (reads : Reads d (fun _ => True) pageId tree) :
    (d.visited pageId tree).Perm d.blocks.keys ∧ tree.size = d.blocks.keys.length := by
  obtain ⟨s, wf, rfl⟩ := importMd_wellFormed importer ids pageId fresh fuel md d imported
  have perm := wf.visited_perm fresh reads
  exact ⟨perm, (Reads.length_visited reads).symm.trans perm.length_eq⟩

theorem importMd_readsEachBlockOnce_paragraph :
    ∃ d tree, (⟨fun _ => some [.paragraph [.text "a"]]⟩ : MDImporter).importMd
        (fun n => ⟨List.replicate (n + 1) 'b'⟩) 10 "P" "a" = .ok (.ok d) ∧
      Reads d (fun _ => True) "P" tree ∧
        ((d.visited "P" tree).Perm d.blocks.keys ∧ tree.size = d.blocks.keys.length) := by
  refine ⟨_, .node "page" .empty [] [.node "paragraph" .empty [⟨"a", []⟩] []], rfl, ?reads,
    importMd_readsEachBlockOnce ⟨fun _ => some [.paragraph [.text "a"]]⟩
      (fun n => ⟨List.replicate (n + 1) 'b'⟩) "P" (freshIds_replicate 1) 10 "a" _ rfl _ ?reads⟩
  exact ⟨rfl, rfl, (⟨trivial, ⟨rfl, rfl, trivial⟩, trivial⟩ : True ∧ (_ ∧ _ ∧ True) ∧ True)⟩

end MdImporter
