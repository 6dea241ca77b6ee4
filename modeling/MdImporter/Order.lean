import Mathlib.Data.List.Lex
import MdImporter.Trace

/-!
# Document order

What the traced walk appends to its log is in document order: a block's
children are made, and the segments of its delta written, at increasing
source positions (in the lexicographic order of positions, which is the
order of a preorder walk of the tree), and no node is visited twice.
`Appends` says this of one call, relative to where the call may write;
`walk_appends` proves it for every call by induction on the fuel, and
`importMd_documentOrder` reads it off the whole import.
-/

namespace MdImporter

set_option autoImplicit false

/-- `x` is the position `p` or a position under it. -/
def Under (p x : List Nat) : Prop := p <+: x

/-- `x` is under one of the siblings `base ++ [j]` with `index ≤ j`. -/
def UnderFrom (base : List Nat) (index : Nat) (x : List Nat) : Prop :=
  ∃ j, index ≤ j ∧ Under (base ++ [j]) x

section Positions

variable {p base x y : List Nat} {i j index : Nat}

theorem Under.refl (p : List Nat) : Under p p := List.prefix_refl p

theorem Under.of_append {q : List Nat} (under : Under (p ++ q) x) : Under p x :=
  (List.prefix_append p q).trans under

theorem Under.lt (lt : i < j) (hx : Under (base ++ [i]) x) (hy : Under (base ++ [j]) y) :
    x < y := by
  obtain ⟨u, rfl⟩ := hx
  obtain ⟨v, rfl⟩ := hy
  show List.Lex (· < ·) _ _
  simpa only [List.append_assoc, List.singleton_append] using
    List.Lex.append_left _ (List.Lex.rel lt) base

theorem Under.lt_of_append (under : Under (p ++ [j]) y) : p < y := by
  obtain ⟨v, rfl⟩ := under
  show List.Lex (· < ·) _ _
  simpa only [List.append_nil, List.append_assoc, List.singleton_append] using
    List.Lex.append_left (· < ·) (@List.Lex.nil _ _ j v) p

theorem Under.eq_of_under (hx : Under (base ++ [i]) x) (hy : Under (base ++ [j]) x) : i = j := by
  have same := List.prefix_of_prefix_length_le hx hy (by simp)
  simpa using List.append_cancel_left (List.IsPrefix.eq_of_length same (by simp))

theorem Under.assoc (under : Under (base ++ [i, j]) x) : Under (base ++ [i] ++ [j]) x := by
  simpa using under

theorem Under.eq_of_under_pair {i' j' : Nat} (hx : Under (base ++ [i, j]) x)
    (hy : Under (base ++ [i', j']) x) : i = i' ∧ j = j' := by
  have same := List.prefix_of_prefix_length_le hx hy (by simp)
  simpa using List.append_cancel_left (List.IsPrefix.eq_of_length same (by simp))

theorem Under.of_pair (under : Under (base ++ [i, j]) x) : Under (base ++ [i]) x :=
  under.assoc.of_append

theorem Under.underFrom_pair (under : Under (base ++ [i, j]) x) : UnderFrom (base ++ [i]) j x :=
  ⟨j, le_rfl, under.assoc⟩

theorem Under.underFrom (under : Under (base ++ [i]) x) (le : index ≤ i) :
    UnderFrom base index x :=
  ⟨i, le, under⟩

theorem UnderFrom.mono {index' : Nat} (after : UnderFrom base index' x) (le : index ≤ index') :
    UnderFrom base index x :=
  let ⟨j, atLeast, under⟩ := after
  ⟨j, le.trans atLeast, under⟩

theorem UnderFrom.under (after : UnderFrom base index x) : Under base x :=
  let ⟨_, _, under⟩ := after
  under.of_append

theorem UnderFrom.lt (after : UnderFrom base index y) : base < y :=
  let ⟨_, _, under⟩ := after
  under.lt_of_append

theorem Under.lt_underFrom (hx : Under (base ++ [i]) x) (hy : UnderFrom base (i + 1) y) :
    x < y :=
  let ⟨_, after, under⟩ := hy
  Under.lt after hx under

theorem Under.not_underFrom (hx : Under (base ++ [i]) x) (hy : UnderFrom base (i + 1) x) :
    False :=
  let ⟨_, after, under⟩ := hy
  absurd (hx.eq_of_under under) (by omega)

end Positions

/-- Segments at positions in `region`, in strictly increasing order. -/
def Placed (region : List Nat → Prop) (segments : List (TextInsert × List Nat)) : Prop :=
  (∀ segment ∈ segments, region segment.2) ∧ (segments.map Prod.snd).Pairwise (· < ·)

namespace Placed

variable {region region' : List Nat → Prop} {segments segments' : List (TextInsert × List Nat)}

theorem nil : Placed region [] := ⟨fun _ absent => absurd absent (List.not_mem_nil _), .nil⟩

theorem singleton {segment : TextInsert} {x : List Nat} (inside : region x) :
    Placed region [(segment, x)] :=
  ⟨fun _ mem => by rw [List.mem_singleton.mp mem]; exact inside, List.pairwise_singleton _ _⟩

theorem mono (placed : Placed region segments) (wider : ∀ x, region x → region' x) :
    Placed region' segments :=
  ⟨fun segment mem => wider _ (placed.1 segment mem), placed.2⟩

theorem sibling {base : List Nat} {index : Nat} (first : Placed (Under (base ++ [index])) segments)
    (rest : Placed (UnderFrom base (index + 1)) segments') :
    Placed (UnderFrom base index) (segments ++ segments') := by
  refine ⟨fun segment mem => ?_, ?_⟩
  · rcases List.mem_append.mp mem with mem | mem
    · exact (first.1 segment mem).underFrom le_rfl
    · exact (rest.1 segment mem).mono (Nat.le_succ index)
  · rw [List.map_append, List.pairwise_append]
    refine ⟨first.2, rest.2, fun x mem y mem' => ?_⟩
    obtain ⟨segment, inFirst, rfl⟩ := List.mem_map.mp mem
    obtain ⟨segment', inRest, rfl⟩ := List.mem_map.mp mem'
    exact (first.1 segment inFirst).lt_underFrom (rest.1 segment' inRest)

end Placed

mutual
theorem inlineDeltaAt_placed (attributes : List Attribute) (pos : List Nat) :
    ∀ node, Placed (Under pos) (inlineDeltaAt attributes pos node)
  | .strong children | .emphasis children | .delete children | .link _ children =>
      (inlineDeltaListAt_placed _ pos 0 children).mono fun _ after => after.under
  | .text _ | .inlineCode _ | .inlineMath _ | .break => .singleton (.refl pos)
  | .root _ | .blockquote _ | .footnoteDefinition _ | .list _ _ _ | .listItem _ _
  | .paragraph _ | .heading _ _ | .thematicBreak | .code _ _ | .math _ | .html _ | .table _ _
  | .tableRow _ | .tableCell _ | .definition _ | .image _ | .linkReference _ | .imageReference
  | .footnoteReference => .singleton (.refl pos)

theorem inlineDeltaListAt_placed (attributes : List Attribute) (base : List Nat) (index : Nat) :
    ∀ nodes, Placed (UnderFrom base index) (inlineDeltaListAt attributes base index nodes)
  | [] => .nil
  | node :: rest =>
      (inlineDeltaAt_placed attributes _ node).sibling
        (inlineDeltaListAt_placed attributes base _ rest)
end

theorem inlineChildrenAt_placed (base : List Nat) :
    ∀ (index : Nat) (inline : List Node),
      Placed (UnderFrom base index) (inlineChildrenAt base index inline)
  | _, [] => .nil
  | index, child :: rest => by
      refine Placed.sibling ?_ (inlineChildrenAt_placed base (index + 1) rest)
      split
      · exact inlineDeltaAt_placed [] _ child
      · exact .singleton (.refl _)

theorem fragmentDeltaAt_placed (base : List Nat) :
    ∀ (index : Nat) (children : List Node),
      Placed (UnderFrom base index) (fragmentDeltaAt base index children)
  | _, [] => .nil
  | index, child :: rest => by
      refine Placed.sibling ?_ (fragmentDeltaAt_placed base (index + 1) rest)
      split
      · exact (inlineChildrenAt_placed _ 0 _).mono fun _ after => after.under
      · exact (inlineChildrenAt_placed _ 0 _).mono fun _ after => after.under
      · exact .singleton (.refl _)

theorem markdownDeltaAt_placed (toMdast : String → Option (List Node)) (markdown : String)
    (base : List Nat) : Placed (Under base) (markdownDeltaAt toMdast markdown base) := by
  unfold markdownDeltaAt
  dsimp only
  split
  · exact .nil
  · split
    · exact .singleton (.refl base)
    · exact (fragmentDeltaAt_placed base 0 _).mono fun _ after => after.under

/-- Of two entries, the earlier `e` and the later `e'`: if they extend the
same block's children list or delta, `e` is at the earlier position; and they
are not two visits of one node. -/
def InOrder (e e' : Entry) : Prop :=
  (∀ q, e.owner = some q → e'.owner = some q → e.pos < e'.pos) ∧
    ∀ p, e = .visit p → e' ≠ .visit p

/-- The callout or toggle whose inner loop is open. -/
def Pending.owner : Pending → Option String
  | .none => .none
  | .callout calloutId => some calloutId
  | .toggle toggleId _ => some toggleId

section Supply

variable (ids : Nat → String) (pageId : String)

/-- `q` is the page or an id drawn before `t`. -/
def Drawn (t : Traced) (q : String) : Prop :=
  q = pageId ∨ ∃ n < t.state.issued, ids n = q

/-- `q` was drawn between `t` and `t'`. -/
def DrawnBetween (t t' : Traced) (q : String) : Prop :=
  ∃ n, t.state.issued ≤ n ∧ n < t'.state.issued ∧ ids n = q

variable {ids pageId} {t t' t'' : Traced} {q : String}

theorem Drawn.not_between (fresh : FreshIds ids pageId) (drawn : Drawn ids pageId t q)
    (between : DrawnBetween ids t' t'' q) (le : t.state.issued ≤ t'.state.issued) : False := by
  obtain ⟨m, after, _, rfl⟩ := between
  rcases drawn with page | ⟨n, before, same⟩
  · exact fresh.ne_pageId m page
  · have := fresh.injective same
    omega

theorem Drawn.mono (drawn : Drawn ids pageId t q) (le : t.state.issued ≤ t'.state.issued) :
    Drawn ids pageId t' q :=
  drawn.imp_right fun ⟨n, before, same⟩ => ⟨n, by omega, same⟩

theorem DrawnBetween.drawn (between : DrawnBetween ids t t' q) : Drawn ids pageId t' q :=
  let ⟨n, _, before, same⟩ := between
  .inr ⟨n, before, same⟩

theorem DrawnBetween.extend (between : DrawnBetween ids t t' q)
    (le : t'.state.issued ≤ t''.state.issued) : DrawnBetween ids t t'' q :=
  let ⟨n, after, before, same⟩ := between
  ⟨n, after, by omega, same⟩

theorem DrawnBetween.start (between : DrawnBetween ids t' t'' q)
    (le : t.state.issued ≤ t'.state.issued) : DrawnBetween ids t t'' q :=
  let ⟨n, after, before, same⟩ := between
  ⟨n, by omega, before, same⟩

theorem DrawnBetween.not_between (fresh : FreshIds ids pageId) (first : DrawnBetween ids t t' q)
    (second : DrawnBetween ids t' t'' q) : False := by
  obtain ⟨n, _, before, rfl⟩ := first
  obtain ⟨m, after, _, same⟩ := second
  have := fresh.injective same
  omega

end Supply

/-- Where a call may append: entries extending the lists and deltas of
`owners` at positions in `top`, every entry in `region`, every visit in
`visits`. -/
structure Scope where
  owners : String → Prop
  top : List Nat → Prop
  region : List Nat → Prop
  visits : List Nat → Prop

/-- `inner`'s positions are among `outer`'s. -/
structure Scope.Within (inner outer : Scope) : Prop where
  top : ∀ x, inner.top x → outer.top x
  region : ∀ x, inner.region x → outer.region x
  visits : ∀ x, inner.visits x → outer.visits x

/-- A call from `t` to `t'` appended `added` to the log, in order and within
`scope`; an entry that does not extend one of the scope's owners extends a
block whose id the call drew. -/
structure Appends (ids : Nat → String) (scope : Scope) (t t' : Traced) (added : List Entry) :
    Prop where
  issued_le : t.state.issued ≤ t'.state.issued
  log_eq : t'.log = t.log ++ added
  inOrder : added.Pairwise InOrder
  region : ∀ e ∈ added, scope.region e.pos
  visits : ∀ p, .visit p ∈ added → scope.visits p
  owned : ∀ e ∈ added, ∀ q, e.owner = some q →
    (scope.owners q → scope.top e.pos) ∧ (scope.owners q ∨ DrawnBetween ids t t' q)

namespace Appends

variable {ids : Nat → String} {pageId : String} {S S1 S2 : Scope} {t t1 t2 : Traced}
  {added added1 added2 : List Entry}

theorem stay (issued_le : t.state.issued ≤ t1.state.issued) (log_eq : t1.log = t.log) :
    Appends ids S t t1 [] where
  issued_le := issued_le
  log_eq := by rw [log_eq, List.append_nil]
  inOrder := .nil
  region _ absent := absurd absent (List.not_mem_nil _)
  visits _ absent := absurd absent (List.not_mem_nil _)
  owned _ absent := absurd absent (List.not_mem_nil _)

theorem mono (appends : Appends ids S1 t t1 added) (within : S1.Within S2)
    (owners : ∀ q, S1.owners q → S2.owners q)
    (owners' : ∀ q, S2.owners q → S1.owners q) : Appends ids S2 t t1 added where
  issued_le := appends.issued_le
  log_eq := appends.log_eq
  inOrder := appends.inOrder
  region e mem := within.region _ (appends.region e mem)
  visits p mem := within.visits _ (appends.visits p mem)
  owned e mem q owner :=
    let ⟨top, owned⟩ := appends.owned e mem q owner
    ⟨fun isOwner => within.top _ (top (owners' q isOwner)), owned.imp_left (owners q)⟩

theorem append (fresh : FreshIds ids pageId) (drawn : ∀ q, S.owners q → Drawn ids pageId t q)
    (first : Appends ids S1 t t1 added1) (second : Appends ids S2 t1 t2 added2)
    (owners1 : ∀ q, S1.owners q → S.owners q)
    (owners2 : ∀ q, S2.owners q → S.owners q ∨ DrawnBetween ids t t1 q)
    (within1 : S1.Within S) (within2 : S2.Within S)
    (ordered : ∀ e ∈ added1, ∀ e' ∈ added2, ∀ q, e.owner = some q →
      e'.owner = some q → e.pos < e'.pos)
    (disjoint : ∀ p, S1.visits p → S2.visits p → False) :
    Appends ids S t t2 (added1 ++ added2) where
  issued_le := first.issued_le.trans second.issued_le
  log_eq := by rw [second.log_eq, first.log_eq, List.append_assoc]
  inOrder := List.pairwise_append.mpr ⟨first.inOrder, second.inOrder, fun e mem e' mem' =>
    ⟨ordered e mem e' mem', fun p visit same => disjoint p (first.visits p (visit ▸ mem))
      (second.visits p (same ▸ mem'))⟩⟩
  region e mem := (List.mem_append.mp mem).elim (fun mem => within1.region _ (first.region e mem))
    (fun mem => within2.region _ (second.region e mem))
  visits p mem := (List.mem_append.mp mem).elim (fun mem => within1.visits _ (first.visits p mem))
    (fun mem => within2.visits _ (second.visits p mem))
  owned e mem q owner := by
    rcases List.mem_append.mp mem with mem | mem
    · obtain ⟨top, owned⟩ := first.owned e mem q owner
      refine ⟨fun isOwner => ?_, ?_⟩
      · rcases owned with owned | between
        · exact within1.top _ (top owned)
        · exact ((drawn q isOwner).not_between fresh between le_rfl).elim
      · exact owned.imp (owners1 q) (·.extend second.issued_le)
    · obtain ⟨top, owned⟩ := second.owned e mem q owner
      refine ⟨fun isOwner => ?_, ?_⟩
      · rcases owned with owned | between
        · exact within2.top _ (top owned)
        · exact ((drawn q isOwner).not_between fresh between first.issued_le).elim
      · rcases owned with owned | between
        · exact (owners2 q owned).imp_right (·.extend second.issued_le)
        · exact .inr (between.start first.issued_le)

theorem ordered (fresh : FreshIds ids pageId) (drawn : ∀ q, S1.owners q → Drawn ids pageId t q)
    (first : Appends ids S1 t t1 added1) (second : Appends ids S2 t1 t2 added2)
    (lt : ∀ q x y, S2.owners q → S2.top y →
      (S1.owners q ∧ S1.top x ∨ DrawnBetween ids t t1 q ∧ S1.region x) → x < y) :
    ∀ e ∈ added1, ∀ e' ∈ added2, ∀ q, e.owner = some q → e'.owner = some q →
      e.pos < e'.pos := by
  intro e mem e' mem' q owner owner'
  obtain ⟨top1, owned1⟩ := first.owned e mem q owner
  obtain ⟨top2, owned2⟩ := second.owned e' mem' q owner'
  rcases owned2 with owned2 | between2
  · refine lt q _ _ owned2 (top2 owned2) ?_
    rcases owned1 with owned1 | between1
    · exact .inl ⟨owned1, top1 owned1⟩
    · exact .inr ⟨between1, first.region e mem⟩
  · exfalso
    rcases owned1 with owned1 | between1
    · exact (drawn q owned1).not_between fresh between2 first.issued_le
    · exact between1.not_between fresh between2

theorem restart (issued : t.state.issued = t1.state.issued) (log : t.log = t1.log)
    (appends : Appends ids S t1 t2 added) : Appends ids S t t2 added where
  issued_le := issued ▸ appends.issued_le
  log_eq := log ▸ appends.log_eq
  inOrder := appends.inOrder
  region := appends.region
  visits := appends.visits
  owned e mem q owner := by
    obtain ⟨top, owned⟩ := appends.owned e mem q owner
    exact ⟨top, owned.imp_right fun ⟨n, after, before, same⟩ =>
      ⟨n, issued ▸ after, before, same⟩⟩

theorem visited (fresh : FreshIds ids pageId) (drawn : ∀ q, S.owners q → Drawn ids pageId t q)
    {p : List Nat} (region : S.region p) (visits : S.visits p)
    (rest : Appends ids S1 (t.note [.visit p]) t2 added)
    (owners : ∀ q, S1.owners q → S.owners q) (within : S1.Within S)
    (elsewhere : ¬ S1.visits p) : Appends ids S t t2 (.visit p :: added) where
  issued_le := rest.issued_le
  log_eq := by rw [rest.log_eq, Traced.note_log, List.append_assoc, List.singleton_append]
  inOrder := by
    refine List.pairwise_cons.mpr ⟨fun e mem => ⟨fun _ absent => (by cases absent), ?_⟩,
      rest.inOrder⟩
    intro x same again
    obtain rfl : p = x := Entry.visit.inj same
    exact elsewhere (rest.visits p (again ▸ mem))
  region e mem := by
    rcases List.mem_cons.mp mem with rfl | mem
    · exact region
    · exact within.region _ (rest.region e mem)
  visits x mem := by
    rcases List.mem_cons.mp mem with same | mem
    · cases same
      exact visits
    · exact within.visits _ (rest.visits x mem)
  owned e mem q owner := by
    rcases List.mem_cons.mp mem with rfl | mem
    · cases owner
    · obtain ⟨top, owned⟩ := rest.owned e mem q owner
      refine ⟨fun isOwner => ?_, owned.imp (owners q) id⟩
      rcases owned with owned | between
      · exact within.top _ (top owned)
      · exact ((drawn q isOwner).not_between fresh between le_rfl).elim

theorem made (fresh : FreshIds ids pageId) (drawn : ∀ q, S.owners q → Drawn ids pageId t q)
    {parent : Option String} {p : List Nat}
    (issued : t1.state.issued = t.state.issued + 1)
    (log : t1.log = t.log ++ [.block (ids t.state.issued) parent p])
    (parentOwned : ∀ q, parent = some q → S.owners q ∧ S.top p) (region : S.region p)
    (rest : Appends ids S1 t1 t2 added) (owners : ∀ q, S1.owners q → q = ids t.state.issued)
    (regions : ∀ x, S1.region x → S.region x) (visits : ∀ x, S1.visits x → S.visits x) :
    Appends ids S t t2 (.block (ids t.state.issued) parent p :: added) := by
  have later := rest.issued_le
  have drawnNow : ∀ q, S1.owners q → DrawnBetween ids t t2 q := fun q owned =>
    ⟨t.state.issued, le_rfl, by omega, (owners q owned).symm⟩
  refine ⟨by omega, by rw [rest.log_eq, log, List.append_assoc, List.singleton_append], ?_,
    ?_, ?_, ?_⟩
  · refine List.pairwise_cons.mpr ⟨fun e mem => ⟨fun q owner owner' => ?_,
      fun _ absent => (by cases absent)⟩, rest.inOrder⟩
    have before := drawn q (parentOwned q owner).1
    rcases (rest.owned e mem q owner').2 with owned | between
    · exact (before.not_between fresh (drawnNow q owned) le_rfl).elim
    · exact (before.not_between fresh between (by omega)).elim
  · intro e mem
    rcases List.mem_cons.mp mem with rfl | mem
    · exact region
    · exact regions _ (rest.region e mem)
  · intro x mem
    rcases List.mem_cons.mp mem with absent | mem
    · cases absent
    · exact visits _ (rest.visits x mem)
  · intro e mem q owner
    rcases List.mem_cons.mp mem with rfl | mem
    · obtain ⟨isOwner, top⟩ := parentOwned q owner
      exact ⟨fun _ => top, .inl isOwner⟩
    · rcases (rest.owned e mem q owner).2 with owned | between
      · exact ⟨fun isOwner =>
          ((drawn q isOwner).not_between fresh (drawnNow q owned) le_rfl).elim,
          .inr (drawnNow q owned)⟩
      · exact ⟨fun isOwner => ((drawn q isOwner).not_between fresh between (by omega)).elim,
          .inr (between.start (by omega))⟩

theorem text {key : String} {segments : List (TextInsert × List Nat)}
    (placed : Placed (fun x => S.region x ∧ S.top x) segments) (owner : S.owners key) :
    Appends ids S t (t.note (textEntries key segments)) (textEntries key segments) where
  issued_le := le_rfl
  log_eq := rfl
  inOrder := List.pairwise_map.mpr ((List.pairwise_map.mp placed.2).imp fun lt =>
    ⟨fun _ _ _ => lt, fun _ absent => by cases absent⟩)
  region e mem := by
    obtain ⟨segment, written, rfl⟩ := List.mem_map.mp mem
    exact (placed.1 segment written).1
  visits _ mem := by
    obtain ⟨_, _, absent⟩ := List.mem_map.mp mem
    cases absent
  owned e mem q same := by
    obtain ⟨segment, written, rfl⟩ := List.mem_map.mp mem
    cases same
    exact ⟨fun _ => (placed.1 segment written).2, .inl owner⟩

theorem single {key : String} {segment : TextInsert} {x : List Nat} (region : S.region x)
    (top : S.top x) (owner : S.owners key) :
    Appends ids S t (t.note [.text key segment x]) [.text key segment x] :=
  @text ids S t key [(segment, x)] (.singleton ⟨region, top⟩) owner

end Appends

namespace Scope

/-- Work for the blocks `owners` at `pos` and under it. -/
def under (owners : String → Prop) (pos : List Nat) : Scope :=
  ⟨owners, Under pos, Under pos, Under pos⟩

/-- `processMdastNode` at `pos` under `parentId`. -/
def node (parentId : Option String) (pos : List Nat) : Scope :=
  under (fun q => parentId = some q) pos

/-- Work at `pos` for the blocks `owners` after `pos` itself was visited. -/
def inside (owners : String → Prop) (pos : List Nat) : Scope :=
  ⟨owners, Under pos, Under pos, UnderFrom pos 0⟩

/-- A loop over the siblings `base ++ [index]`, `base ++ [index + 1]`, .... -/
def siblings (owners : String → Prop) (base : List Nat) (index : Nat) : Scope :=
  ⟨owners, UnderFrom base index, UnderFrom base index, UnderFrom base index⟩

end Scope

/-- The positions of the columns rewrite of the table at `pos`, for the columns
`colIndices`: a column's header cell `pos ++ [0, c]`, and what is under its body
cells `pos ++ [r, c]`. -/
def ColumnsRegion (pos colIndices x : List Nat) : Prop :=
  ∃ c ∈ colIndices, x = pos ++ [0, c] ∨ ∃ r, 1 ≤ r ∧ Under (pos ++ [r, c]) x

/-- What is under the body cells of column `colIndex` from row `rowIndex` on. -/
def ColumnCells (pos : List Nat) (colIndex rowIndex : Nat) (x : List Nat) : Prop :=
  ∃ r, rowIndex ≤ r ∧ Under (pos ++ [r, colIndex]) x

namespace Scope

/-- The columns rewrite's loop over `colIndices` for the table at `pos`. -/
def columns (columnsId : String) (pos colIndices : List Nat) : Scope :=
  ⟨(· = columnsId), fun x => ∃ c ∈ colIndices, x = pos ++ [0, c],
    ColumnsRegion pos colIndices, ColumnsRegion pos colIndices⟩

/-- The columns rewrite's loop over the body rows for column `colIndex`. -/
def columnRows (columnId : String) (pos : List Nat) (colIndex rowIndex : Nat) : Scope :=
  ⟨(· = columnId), ColumnCells pos colIndex rowIndex, ColumnCells pos colIndex rowIndex,
    ColumnCells pos colIndex rowIndex⟩

end Scope

section ScopeFacts

variable {owners owners' : String → Prop} {pos base x : List Nat} {index : Nat}

theorem UnderFrom.ne (after : UnderFrom base index x) : x ≠ base :=
  fun same => lt_irrefl base (same ▸ after.lt)

theorem ColumnsRegion.underFrom {colIndices : List Nat} (inside : ColumnsRegion pos colIndices x) :
    UnderFrom pos 0 x := by
  obtain ⟨c, _, rfl | ⟨r, _, under⟩⟩ := inside
  · exact ⟨0, le_rfl, ⟨[c], by simp⟩⟩
  · obtain ⟨u, rfl⟩ := under
    exact ⟨r, Nat.zero_le r, ⟨c :: u, by simp⟩⟩

theorem ColumnsRegion.under_pair {colIndices : List Nat} (inside : ColumnsRegion pos colIndices x) :
    ∃ c ∈ colIndices, ∃ r, Under (pos ++ [r, c]) x := by
  obtain ⟨c, member, rfl | ⟨r, _, under⟩⟩ := inside
  · exact ⟨c, member, 0, Under.refl _⟩
  · exact ⟨c, member, r, under⟩

theorem ColumnCells.columnsRegion {colIndex : Nat} (cell : ColumnCells pos colIndex 1 x) :
    ColumnsRegion pos [colIndex] x :=
  let ⟨r, first, under⟩ := cell
  ⟨colIndex, List.mem_singleton_self colIndex, .inr ⟨r, first, under⟩⟩

theorem ColumnCells.mono {colIndex rowIndex : Nat}
    (cell : ColumnCells pos colIndex (rowIndex + 1) x) :
    ColumnCells pos colIndex rowIndex x :=
  let ⟨r, after, under⟩ := cell
  ⟨r, (Nat.le_succ rowIndex).trans after, under⟩

theorem ColumnCells.underFrom {colIndex rowIndex : Nat}
    (cell : ColumnCells pos colIndex rowIndex x) :
    UnderFrom pos rowIndex x :=
  let ⟨_, after, under⟩ := cell
  under.of_pair.underFrom after

theorem Scope.columns_within {columnsId : String} {colIndices colIndices' : List Nat}
    (sub : ∀ c ∈ colIndices, c ∈ colIndices') :
    (Scope.columns columnsId pos colIndices).Within (Scope.columns columnsId pos colIndices') :=
  have wider : ∀ x, ColumnsRegion pos colIndices x → ColumnsRegion pos colIndices' x :=
    fun _ ⟨c, member, cell⟩ => ⟨c, sub c member, cell⟩
  ⟨fun _ ⟨c, member, top⟩ => ⟨c, sub c member, top⟩, wider, wider⟩

theorem Scope.inside_within_node :
    (Scope.inside owners pos).Within (.under owners' pos) :=
  ⟨fun _ => id, fun _ => id, fun _ after => after.under⟩

theorem Scope.siblings_within_inside :
    (Scope.siblings owners pos 0).Within (Scope.inside owners' pos) :=
  ⟨fun _ after => after.under, fun _ after => after.under, fun _ => id⟩

theorem Scope.siblings_within_siblings {index' : Nat} (le : index ≤ index') :
    (Scope.siblings owners base index').Within (Scope.siblings owners' base index) :=
  ⟨fun _ after => after.mono le, fun _ after => after.mono le, fun _ after => after.mono le⟩

end ScopeFacts

namespace Appends

variable {ids : Nat → String} {pageId : String} {S1 S2 : Scope} {t t1 t2 : Traced}
  {added1 added2 : List Entry}

theorem markdown {owners : String → Prop} {p : List Nat} {key : String}
    (toMdast : String → Option (List Node)) (markdown : String) (owner : owners key) :
    Appends ids (.under owners p) t
      (t.note (textEntries key (markdownDeltaAt toMdast markdown p)))
      (textEntries key (markdownDeltaAt toMdast markdown p)) :=
  text ((markdownDeltaAt_placed toMdast markdown p).mono fun _ under => ⟨under, under⟩) owner

theorem visitedAt {owners : String → Prop} {p : List Nat} {added : List Entry}
    (fresh : FreshIds ids pageId) (drawn : ∀ q, owners q → Drawn ids pageId t q)
    (rest : Appends ids (.inside owners p) (t.note [.visit p]) t2 added) :
    Appends ids (.under owners p) t t2 (.visit p :: added) :=
  rest.visited fresh drawn (Under.refl p) (Under.refl p) (fun _ owned => owned)
    Scope.inside_within_node fun after => after.ne rfl

theorem opening {parentId : Option String} {b : List Nat} {f : DocumentData → DocumentData}
    {added : List Entry} (fresh : FreshIds ids pageId)
    (drawn : ∀ q, parentId = some q → Drawn ids pageId t q)
    (rest : Appends ids S1 ((((t.note [.visit b]).draw ids).2.edit f).note
      [.block (ids t.state.issued) parentId b]) t2 added)
    (owners : ∀ q, S1.owners q → q = ids t.state.issued)
    (regions : ∀ x, S1.region x → Under b x)
    (visits : ∀ x, S1.visits x → UnderFrom b 0 x) :
    Appends ids (.node parentId b) t t2
      (.visit b :: .block (ids t.state.issued) parentId b :: added) :=
  visitedAt fresh drawn (made fresh drawn rfl rfl (fun _ same => ⟨same, Under.refl b⟩)
    (Under.refl b) rest owners regions visits)

theorem visitedSibling {owners owners' : String → Prop} {base : List Nat} {index : Nat}
    {added : List Entry} (fresh : FreshIds ids pageId)
    (drawn : ∀ q, owners q → Drawn ids pageId t q)
    (rest : Appends ids (.siblings owners' base (index + 1)) (t.note [.visit (base ++ [index])]) t2
      added) (owned : ∀ q, owners' q → owners q) :
    Appends ids (.siblings owners base index) t t2 (.visit (base ++ [index]) :: added) :=
  rest.visited fresh drawn ((Under.refl _).underFrom le_rfl) ((Under.refl _).underFrom le_rfl)
    owned (Scope.siblings_within_siblings (Nat.le_succ index)) (Under.refl _).not_underFrom

theorem sequence {S : Scope} {base : List Nat} {index : Nat} (fresh : FreshIds ids pageId)
    (drawn : ∀ q, S.owners q → Drawn ids pageId t q)
    (first : Appends ids S1 t t1 added1) (second : Appends ids S2 t1 t2 added2)
    (owners1 : ∀ q, S1.owners q → S.owners q)
    (owners2 : ∀ q, S2.owners q → S.owners q ∨ DrawnBetween ids t t1 q)
    (within1 : S1.Within S) (within2 : S2.Within S)
    (top1 : ∀ x, S1.top x → Under (base ++ [index]) x)
    (region1 : ∀ x, S1.region x → Under (base ++ [index]) x)
    (visits1 : ∀ x, S1.visits x → Under (base ++ [index]) x)
    (top2 : ∀ y, S2.top y → UnderFrom base (index + 1) y)
    (visits2 : ∀ y, S2.visits y → UnderFrom base (index + 1) y) :
    Appends ids S t t2 (added1 ++ added2) := by
  refine first.append fresh drawn second owners1 owners2 within1 within2
    (first.ordered fresh (fun q owned => drawn q (owners1 q owned)) second ?_)
    fun x inside inside' => (visits1 x inside).not_underFrom (visits2 x inside')
  rintro q x y - top (⟨-, inside⟩ | ⟨-, inside⟩)
  · exact (top1 x inside).lt_underFrom (top2 y top)
  · exact (region1 x inside).lt_underFrom (top2 y top)

theorem sibling {owners : String → Prop} {base : List Nat} {index : Nat}
    (fresh : FreshIds ids pageId) (drawn : ∀ q, owners q → Drawn ids pageId t q)
    (first : Appends ids S1 t t1 added1)
    (second : Appends ids S2 t1 t2 added2)
    (owners1 : ∀ q, S1.owners q → owners q)
    (owners2 : ∀ q, S2.owners q → owners q ∨ DrawnBetween ids t t1 q)
    (top1 : ∀ x, S1.top x → Under (base ++ [index]) x)
    (region1 : ∀ x, S1.region x → Under (base ++ [index]) x)
    (visits1 : ∀ x, S1.visits x → Under (base ++ [index]) x)
    (within2 : S2.Within (.siblings owners base (index + 1))) :
    Appends ids (.siblings owners base index) t t2 (added1 ++ added2) :=
  first.sequence fresh drawn second owners1 owners2
    ⟨fun x inside => (top1 x inside).underFrom le_rfl,
      fun x inside => (region1 x inside).underFrom le_rfl,
      fun x inside => (visits1 x inside).underFrom le_rfl⟩
    ⟨fun x inside => (within2.top x inside).mono (Nat.le_succ index),
      fun x inside => (within2.region x inside).mono (Nat.le_succ index),
      fun x inside => (within2.visits x inside).mono (Nat.le_succ index)⟩
    top1 region1 visits1 within2.top within2.visits

theorem nextSibling {owners owners1 owners2 : String → Prop} {base : List Nat} {index : Nat}
    (fresh : FreshIds ids pageId) (drawn : ∀ q, owners q → Drawn ids pageId t q)
    (first : Appends ids (.under owners1 (base ++ [index])) t t1 added1)
    (second : Appends ids (.siblings owners2 base (index + 1)) t1 t2 added2)
    (owned1 : ∀ q, owners1 q → owners q)
    (owned2 : ∀ q, owners2 q → owners q ∨ DrawnBetween ids t t1 q) :
    Appends ids (.siblings owners base index) t t2 (added1 ++ added2) :=
  first.sibling fresh drawn second owned1 owned2 (fun _ h => h) (fun _ h => h) (fun _ h => h)
    ⟨fun _ h => h, fun _ h => h, fun _ h => h⟩

theorem toInside {owners : String → Prop} {pos : List Nat}
    (appends : Appends ids (.siblings owners pos 0) t t1 added1) :
    Appends ids (.inside owners pos) t t1 added1 :=
  appends.mono Scope.siblings_within_inside (fun _ h => h) fun _ h => h

theorem toggleContent {toggleId summary : String} {base : List Nat} {index : Nat}
    {f : DocumentData → DocumentData} (toMdast : String → Option (List Node))
    (fresh : FreshIds ids pageId)
    (inBody : Appends ids (.siblings (· = toggleId) (base ++ [index, 1]) 0)
      ((t.edit f).note (textEntries toggleId (markdownDeltaAt toMdast summary
        (base ++ [index, 0])))) t1 added1)
    (drawn : Drawn ids pageId t toggleId) :
    Appends ids (.siblings (· = toggleId) (base ++ [index]) 0) t t1
      (textEntries toggleId (markdownDeltaAt toMdast summary (base ++ [index, 0])) ++ added1) := by
  have texts : Appends ids (.under (· = toggleId) (base ++ [index, 0])) t
      ((t.edit f).note (textEntries toggleId (markdownDeltaAt toMdast summary
        (base ++ [index, 0])))) (textEntries toggleId (markdownDeltaAt toMdast summary
          (base ++ [index, 0]))) := by
    refine restart (by rfl) (by rfl) (markdown toMdast summary ?_)
    rfl
  exact texts.sibling fresh (fun _ same => same ▸ drawn) inBody (fun _ h => h)
    (fun _ h => .inl h) (fun _ under => under.assoc) (fun _ under => under.assoc)
    (fun _ under => under.assoc)
    ⟨fun _ after => after.under.underFrom_pair, fun _ after => after.under.underFrom_pair,
      fun _ after => after.under.underFrom_pair⟩

theorem underBlock {id : String} {base : List Nat} {index : Nat}
    (appends : Appends ids (.siblings (fun q => some id = some q ∨ Pending.none.owner = some q)
      base index) t t1 added1) :
    Appends ids (.siblings (· = id) base index) t t1 added1 :=
  appends.mono ⟨fun _ h => h, fun _ h => h, fun _ h => h⟩
    (fun _ owned => owned.elim (fun same => (Option.some.inj same).symm) Option.noConfusion)
    fun _ same => .inl (same ▸ rfl)

theorem child {id : String} {base : List Nat} {index : Nat} (fresh : FreshIds ids pageId)
    (drawn : Drawn ids pageId t id)
    (first : Appends ids (.node (some id) (base ++ [index])) t t1 added1)
    (second : Appends ids (.siblings (· = id) base (index + 1)) t1 t2 added2) :
    Appends ids (.siblings (· = id) base index) t t2 (added1 ++ added2) :=
  first.nextSibling fresh (fun _ same => same ▸ drawn) second
    (fun _ same => (Option.some.inj same).symm) fun _ owned => .inl owned

theorem paragraph {parent : String} {p : List Nat} (fresh : FreshIds ids pageId)
    (drawn : Drawn ids pageId t parent) (issued : t1.state.issued = t.state.issued + 1)
    (log : t1.log = t.log ++ [.block (ids t.state.issued) (some parent) p])
    (rest : Appends ids (.siblings (· = ids t.state.issued) p 0) t1 t2 added1) :
    Appends ids (.inside (· = parent) p) t t2
      (.block (ids t.state.issued) (some parent) p :: added1) :=
  made fresh (fun _ same => same ▸ drawn) issued log
    (fun _ same => ⟨(Option.some.inj same).symm, Under.refl p⟩) (Under.refl p) rest
    (fun _ h => h) (fun _ after => after.under) fun _ after => after

theorem column {columnsId : String} {pos : List Nat} {colIndex : Nat}
    (fresh : FreshIds ids pageId) (drawn : Drawn ids pageId t columnsId)
    (issued : t1.state.issued = t.state.issued + 1)
    (log : t1.log = t.log ++ [.block (ids t.state.issued) (some columnsId) (pos ++ [0, colIndex])])
    (rest : Appends ids (.columnRows (ids t.state.issued) pos colIndex 1) t1 t2 added1) :
    Appends ids (.columns columnsId pos [colIndex]) t t2
      (.block (ids t.state.issued) (some columnsId) (pos ++ [0, colIndex]) :: added1) :=
  made fresh (fun _ same => same ▸ drawn) issued log
    (fun _ same => ⟨(Option.some.inj same).symm, colIndex, List.mem_singleton_self _, rfl⟩)
    ⟨colIndex, List.mem_singleton_self _, .inl rfl⟩ rest (fun _ h => h)
    (fun _ cell => cell.columnsRegion) fun _ cell => cell.columnsRegion

theorem nextColumn {columnsId : String} {pos colIndices : List Nat} {colIndex : Nat}
    (fresh : FreshIds ids pageId) (drawn : Drawn ids pageId t columnsId)
    (later : ∀ c ∈ colIndices, colIndex < c)
    (first : Appends ids (.columns columnsId pos [colIndex]) t t1 added1)
    (second : Appends ids (.columns columnsId pos colIndices) t1 t2 added2) :
    Appends ids (.columns columnsId pos (colIndex :: colIndices)) t t2 (added1 ++ added2) := by
  have drawnOwner : ∀ q, q = columnsId → Drawn ids pageId t q := fun _ same => same ▸ drawn
  refine first.append fresh drawnOwner second (fun _ h => h) (fun _ h => .inl h)
    (Scope.columns_within fun c member => List.mem_singleton.mp member ▸ List.mem_cons_self _ _)
    (Scope.columns_within fun c member => List.mem_cons_of_mem _ member)
    (first.ordered fresh drawnOwner second ?_) fun p inFirst inRest => ?_
  · rintro q x y owner ⟨c, member, rfl⟩ (⟨-, c', member', rfl⟩ | ⟨between, -⟩)
    · obtain rfl := List.mem_singleton.mp member'
      exact Under.lt (later c member) (Under.refl _).assoc (Under.refl _).assoc
    · exact ((drawnOwner q owner).not_between fresh between le_rfl).elim
  · obtain ⟨c, member, _, under⟩ := inFirst.under_pair
    obtain ⟨c', member', _, under'⟩ := inRest.under_pair
    obtain rfl := List.mem_singleton.mp member
    exact absurd (under.eq_of_under_pair under').2 (later c' member').ne

end Appends

section Walk

section Statements

variable (toMdast : String → Option (List Node)) (ids : Nat → String) (pageId : String)

/-- `processMdastNodeTraced` appends within its node's position. -/
def NodeAppends (fuel : Nat) : Prop :=
  ∀ t node pos parentId listType startNumber,
    (∀ q, parentId = some q → Drawn ids pageId t q) →
    Returns (fun t' => ∃ added, Appends ids (.node parentId pos) t t' added)
      (processMdastNodeTraced toMdast ids fuel t node pos parentId none listType startNumber)

def ContentAppends (fuel : Nat) : Prop :=
  ∀ t node id pos listType startNumber, Drawn ids pageId t id →
    Returns (fun t' => ∃ added, Appends ids (.inside (· = id) pos) t t' added)
      (processBlockContentTraced toMdast ids fuel t node id pos listType startNumber)

def ChildrenAppends (fuel : Nat) : Prop :=
  ∀ t parentId pending children base index listType startNumber,
    (∀ q, parentId = some q → Drawn ids pageId t q) →
    (∀ q, pending.owner = some q → Drawn ids pageId t q) →
    Returns (fun t' => ∃ added, Appends ids
        (.siblings (fun q => parentId = some q ∨ pending.owner = some q) base index) t t' added)
      (processMdastNodeChildrenTraced toMdast ids fuel t parentId pending children base index
        listType startNumber)

def ToggleBodyAppends (fuel : Nat) : Prop :=
  ∀ t toggleId body base, Drawn ids pageId t toggleId →
    Returns (fun t' => ∃ added, Appends ids (.siblings (· = toggleId) base 0) t t' added)
      (processToggleBodyTraced toMdast ids fuel t toggleId body base)

def RowsAppends (fuel : Nat) : Prop :=
  ∀ t tableId align rowIndex rows pos, Drawn ids pageId t tableId →
    Returns (fun t' => ∃ added, Appends ids (.siblings (· = tableId) pos rowIndex) t t' added)
      (processTableRowsTraced toMdast ids fuel t tableId align rowIndex rows pos)

def RowAppends (fuel : Nat) : Prop :=
  ∀ t cells rowIndex tableId align pos, Drawn ids pageId t tableId →
    Returns (fun t' => ∃ added, Appends ids (.node (some tableId) pos) t t' added)
      (processTableRowTraced toMdast ids fuel t cells rowIndex tableId align pos)

def CellsAppends (fuel : Nat) : Prop :=
  ∀ t cells rowId rowIndex colIndex align pos, Drawn ids pageId t rowId →
    Returns (fun t' => ∃ added, Appends ids (.siblings (· = rowId) pos colIndex) t t' added)
      (processTableCellsTraced toMdast ids fuel t cells rowId rowIndex colIndex align pos)

def ColumnsAppends (fuel : Nat) : Prop :=
  ∀ t columnsId bodyRows colIndices pos, Drawn ids pageId t columnsId →
    colIndices.Pairwise (· < ·) →
    Returns (fun t' => ∃ added, Appends ids (.columns columnsId pos colIndices) t t' added)
      (processNotionColumnsTraced toMdast ids fuel t columnsId bodyRows colIndices pos)

def ColumnRowsAppends (fuel : Nat) : Prop :=
  ∀ t columnId colIndex rows pos rowIndex, Drawn ids pageId t columnId →
    Returns (fun t' => ∃ added,
        Appends ids (.columnRows columnId pos colIndex rowIndex) t t' added)
      (processNotionColumnRowsTraced toMdast ids fuel t columnId colIndex rows pos rowIndex)

end Statements

variable {toMdast : String → Option (List Node)} {ids : Nat → String} {pageId : String}
  {fuel : Nat}

theorem ChildrenAppends.under (children : ChildrenAppends toMdast ids pageId fuel) (t : Traced)
    (id : String) (nodes : List Node) (base : List Nat) (index : Nat)
    (listType : Option Node.ListType) (startNumber : Option Nat) (drawn : Drawn ids pageId t id) :
    Returns (fun t' => ∃ added, Appends ids (.siblings (· = id) base index) t t' added)
      (processMdastNodeChildrenTraced toMdast ids fuel t (some id) .none nodes base index
        listType startNumber) :=
  (children _ _ .none _ _ _ _ _ (fun _ same => Option.some.inj same ▸ drawn)
    fun _ => Option.noConfusion).mono fun _ ⟨_, appends⟩ => ⟨_, appends.underBlock⟩

theorem nodeAppends_succ (fresh : FreshIds ids pageId)
    (children : ChildrenAppends toMdast ids pageId fuel)
    (content : ContentAppends toMdast ids pageId fuel)
    (columns : ColumnsAppends toMdast ids pageId fuel) :
    NodeAppends toMdast ids pageId (fuel + 1) := by
  intro t n pos parentId listType startNumber drawnParent
  refine Returns.mono ?_ fun t2 (rest : ∃ added, Appends ids
      (.inside (fun q => parentId = some q) pos) (t.note [.visit pos]) t2 added) =>
    let ⟨_, rest⟩ := rest
    ⟨_, Appends.visitedAt fresh drawnParent rest⟩
  rw [processMdastNodeTraced.eq_2]
  dsimp only
  have drawn : ∀ q, parentId = some q → Drawn ids pageId (t.note [.visit pos]) q :=
    drawnParent
  by_cases inline : n.isInlineNode
  · simp only [inline, ↓reduceIte]
    refine Returns.ok ⟨inlineEntries n parentId pos, ?_⟩
    cases parentId with
    | none => exact .stay le_rfl (List.append_nil _)
    | some parent =>
        simp only [inlineEntries]
        refine .restart ?_ ?_ (.text ?_ rfl)
        · rfl
        · rfl
        · exact (inlineDeltaAt_placed [] pos n).mono fun _ under => ⟨under, under⟩
  by_cases closing : isClosingSentinel n
  · simp only [inline, closing, ↓reduceIte]
    exact .ok ⟨_, .stay le_rfl rfl⟩
  simp only [inline, closing, Bool.false_eq_true, ↓reduceIte]
  cases n.getMdastNodeInfo with
  | some info =>
      obtain ⟨items, listType', startNumber'⟩ := info
      exact (children _ _ .none _ _ _ _ _ drawn fun _ => Option.noConfusion).mono
        fun _ ⟨_, appends⟩ => ⟨_, appends.mono Scope.siblings_within_inside
          (fun _ owned => owned.elim id Option.noConfusion) fun _ => .inl⟩
  | none =>
      obtain ⟨url, found⟩ := imageOf_ok n
      simp only [found, bind, Except.bind]
      have parentOwned : ∀ q, parentId = some q →
          (Scope.inside (fun q => parentId = some q) pos).owners q ∧
            (Scope.inside (fun q => parentId = some q) pos).top pos :=
        fun _ same => ⟨same, .refl pos⟩
      rcases url with _ | url <;> rcases parentId with _ | parent
      all_goals try exact .ok ⟨_, .made fresh drawn rfl rfl parentOwned (.refl pos)
        (@Appends.stay ids (.inside (· = ids t.state.issued) pos) _ _ le_rfl rfl)
        (fun _ => id) (fun _ => id) fun _ => id⟩
      all_goals
        simp only [idOrGenerate, generateId]
        cases notionColumnsOf n with
        | some info =>
            exact (columns _ _ _ _ _ (.inr ⟨_, Nat.lt_succ_self _, rfl⟩)
              (List.pairwise_lt_range _)).mono fun _ ⟨_, appends⟩ =>
                ⟨_, .made fresh drawn rfl rfl parentOwned (.refl pos) appends
                  (fun _ => id) (fun _ inside => inside.underFrom.under)
                  fun _ inside => inside.underFrom⟩
        | none =>
            exact (content _ _ _ _ _ _ (.inr ⟨_, Nat.lt_succ_self _, rfl⟩)).mono
              fun _ ⟨_, appends⟩ => ⟨_, .made fresh drawn rfl rfl parentOwned
                (.refl pos) appends (fun _ => id) (fun _ => id) fun _ => id⟩

theorem contentAppends_succ (fresh : FreshIds ids pageId)
    (children : ChildrenAppends toMdast ids pageId fuel)
    (rows : RowsAppends toMdast ids pageId fuel) :
    ContentAppends toMdast ids pageId (fuel + 1) := by
  intro t n id pos listType startNumber drawnId
  rw [processBlockContentTraced_succ]
  cases blockContent n with
  | children items =>
      exact (children.under _ _ _ _ _ _ _ drawnId).mono fun _ ⟨_, appends⟩ =>
        ⟨_, appends.toInside⟩
  | headed head rest =>
      have drawnOwner : ∀ q, q = id → Drawn ids pageId t q :=
        fun _ same => same ▸ drawnId
      cases head with
      | some para =>
          refine Returns.bind (children.under (t.note [.visit (pos ++ [0])]) id para (pos ++ [0]) 0
            none startNumber drawnId) fun t1 ⟨_, first⟩ => ?_
          have visitedHead := Appends.visitedAt fresh drawnOwner first.toInside
          exact (children.under t1 id rest pos 1 listType startNumber
            (drawnId.mono visitedHead.issued_le)).mono fun _ ⟨_, second⟩ =>
              ⟨_, (visitedHead.nextSibling fresh drawnOwner second (fun _ h => h)
                fun _ h => .inl h).toInside⟩
      | none =>
          exact (children.under t id rest pos 1 listType startNumber drawnId).mono
            fun _ ⟨_, appends⟩ => ⟨_, appends.mono ⟨fun _ after => after.under,
              fun _ after => after.under, fun _ after => after.mono (Nat.zero_le 1)⟩
              (fun _ h => h) fun _ h => h⟩
  | done => exact .ok ⟨_, .stay le_rfl rfl⟩
  | text value =>
      refine .ok ⟨_, .restart ?_ ?_ (.single (Under.refl pos) (Under.refl pos) rfl)⟩
      all_goals rfl
  | rows align tableRows =>
      exact (rows _ _ _ _ _ _ drawnId).mono fun _ ⟨_, appends⟩ =>
        ⟨_, appends.toInside⟩
  | unreachable => exact Returns.error _

theorem childrenAppends_succ (fresh : FreshIds ids pageId)
    (node : NodeAppends toMdast ids pageId fuel)
    (children : ChildrenAppends toMdast ids pageId fuel)
    (body : ToggleBodyAppends toMdast ids pageId fuel) :
    ChildrenAppends toMdast ids pageId (fuel + 1) := by
  intro t parentId pending siblings base index listType startNumber drawnParent drawnPending
  have drawnOwners : ∀ q, (parentId = some q ∨ pending.owner = some q) →
      Drawn ids pageId t q :=
    fun q owned => owned.elim (drawnParent q) (drawnPending q)
  cases siblings with
  | nil => cases pending <;> exact .ok ⟨_, .stay le_rfl rfl⟩
  | cons n rest =>
      /- the siblings after this one, walked from a later state with the same parent -/
      have later : ∀ t1 pending', t.state.issued ≤ t1.state.issued →
          (∀ q, pending'.owner = some q → Drawn ids pageId t1 q) →
          Returns (fun t2 => ∃ added, Appends ids (.siblings (fun q => parentId = some q ∨
              pending'.owner = some q) base (index + 1)) t1 t2 added)
            (processMdastNodeChildrenTraced toMdast ids fuel t1 parentId pending' rest base
              (index + 1) listType startNumber) := fun t1 pending' le drawn' =>
        children _ _ _ _ _ _ _ _ (fun q owned => (drawnParent q owned).mono le) drawn'
      /- a sibling walked as a node under `parentId'`, then the siblings after it -/
      have walked : ∀ parentId', (∀ q, parentId' = some q → parentId = some q ∨
          pending.owner = some q) →
          Returns (fun t2 => ∃ added, Appends ids (.siblings (fun q => parentId = some q ∨
              pending.owner = some q) base index) t t2 added)
            (do
              let t ← processMdastNodeTraced toMdast ids fuel t n (base ++ [index]) parentId'
                none listType startNumber
              processMdastNodeChildrenTraced toMdast ids fuel t parentId pending rest base
                (index + 1) listType startNumber) := fun parentId' owned =>
        Returns.bind (node _ _ _ _ _ _ fun q same => drawnOwners q (owned q same))
          fun t1 ⟨_, first⟩ => (later t1 pending first.issued_le
            fun q same => (drawnPending q same).mono first.issued_le).mono
            fun _ ⟨_, second⟩ => ⟨_, first.nextSibling fresh drawnOwners second owned
              fun _ owned' => .inl owned'⟩
      /- a sibling the loop consumes by itself, then the siblings after it -/
      have consumed : ∀ pending',
          (∀ q, pending'.owner = some q → pending.owner = some q) →
          Returns (fun t2 => ∃ added, Appends ids (.siblings (fun q => parentId = some q ∨
              pending.owner = some q) base index) t t2 added)
            (processMdastNodeChildrenTraced toMdast ids fuel (t.note [.visit (base ++ [index])])
              parentId pending' rest base (index + 1) listType startNumber) :=
        fun pending' owned => (later (t.note [.visit (base ++ [index])]) pending' le_rfl
          fun q same => drawnPending q (owned q same)).mono fun _ ⟨_, appends⟩ =>
            ⟨_, appends.visitedSibling fresh drawnOwners
              fun q owner => owner.imp_right (owned q)⟩
      cases pending with
      | none =>
          /- a sibling that opens a callout or a toggle with the next id, then the
          siblings after it with that block open -/
          have opened : ∀ t1 pending' added,
              (∀ q, pending'.owner = some q → q = ids t.state.issued) →
              Appends ids (.node parentId (base ++ [index])) t t1 added →
              t.state.issued < t1.state.issued →
              Returns (fun t2 => ∃ added, Appends ids (.siblings (fun q => parentId = some q ∨
                  Pending.none.owner = some q) base index) t t2 added)
                (processMdastNodeChildrenTraced toMdast ids fuel t1 parentId pending' rest base
                  (index + 1) listType startNumber) := fun t1 pending' _ owner first drawnNext =>
            (later t1 pending' first.issued_le fun q same =>
              .inr ⟨_, drawnNext, (owner q same).symm⟩).mono fun _ ⟨_, loop⟩ =>
              ⟨_, first.nextSibling fresh drawnOwners loop (fun _ => .inl) fun q owned =>
                owned.elim (fun h => .inl (.inl h))
                  fun same => .inr ⟨_, le_rfl, drawnNext, (owner q same).symm⟩⟩
          simp only [processMdastNodeChildrenTraced]
          cases classifySibling n with
          | closing => exact consumed .none fun _ h => h
          | aside callout =>
              exact opened _ (.callout _) _ (fun _ same => (Option.some.inj same).symm)
                (by exact (Appends.opening fresh drawnParent (.restart (by rfl) (by rfl)
                  (.markdown toMdast callout.content (by rfl))) (fun _ h => h)
                  (fun _ under => under.of_pair) fun _ under => under.underFrom_pair))
                (Nat.lt_succ_self _)
          | details value =>
              obtain ⟨parsed, found⟩ := parseDetailsHtml_ok value
              simp only [found, bind, Except.bind, pure, Except.pure]
              cases parsed with
              | some details =>
                  exact Returns.bind (body _ _ _ _ (.inr ⟨_, Nat.lt_succ_self _, rfl⟩))
                    fun t1 ⟨_, inBody⟩ => opened t1 (.toggle _ true) _
                      (fun _ same => (Option.some.inj same).symm)
                      (by exact (Appends.opening fresh drawnParent
                        (Appends.toggleContent toMdast fresh inBody
                          (.inr ⟨_, Nat.lt_succ_self _, rfl⟩))
                        (fun _ h => h) (fun _ after => after.under) fun _ after => after))
                      ((Nat.lt_succ_self _).trans_le inBody.issued_le)
              | none =>
                  exact opened _ (.toggle _ false) _ (fun _ same => (Option.some.inj same).symm)
                    (by exact (Appends.opening fresh drawnParent
                      (@Appends.stay ids (.inside (· = ids t.state.issued) (base ++ [index]))
                        _ _ le_rfl rfl) (fun _ h => h) (fun _ h => h) fun _ h => h))
                    (Nat.lt_succ_self _)
          | other => exact walked parentId fun _ => .inl
      | callout calloutId =>
          simp only [processMdastNodeChildrenTraced]
          by_cases closed : isHtmlTag "</aside>" n
          · simp only [closed, ↓reduceIte]
            exact consumed .none fun _ => Option.noConfusion
          · simp only [closed, Bool.false_eq_true, ↓reduceIte]
            exact walked (some calloutId) fun _ => .inr
      | toggle toggleId summaryWritten =>
          simp only [processMdastNodeChildrenTraced]
          cases classifyToggleSibling summaryWritten n with
          | close => exact consumed .none fun _ => Option.noConfusion
          | summary value =>
              obtain ⟨extracted, found⟩ := extractTagContent_ok value "summary"
              simp only [found, bind, Except.bind]
              rcases extracted with _ | ⟨summary, remainder⟩
              · exact consumed _ fun _ h => h
              have drawnToggle : ∀ q, q = toggleId → Drawn ids pageId t q :=
                fun q same => drawnPending q (congrArg some same).symm
              exact Returns.bind (body _ _ _ _ (drawnToggle _ rfl)) fun t1 ⟨_, inBody⟩ =>
                (later t1 (.toggle _ true) inBody.issued_le
                  fun q same => (drawnPending q same).mono inBody.issued_le).mono
                fun _ ⟨_, loop⟩ => ⟨_, Appends.nextSibling fresh drawnOwners
                  (by exact (Appends.visitedAt fresh drawnToggle
                    (Appends.toggleContent toMdast fresh inBody (drawnToggle _ rfl)).toInside))
                  loop (fun _ same => .inr (congrArg some same).symm) fun _ owned => .inl owned⟩
          | other => exact walked (some toggleId) fun _ => .inr

theorem toggleBodyAppends_succ (children : ChildrenAppends toMdast ids pageId fuel) :
    ToggleBodyAppends toMdast ids pageId (fuel + 1) := by
  intro t toggleId bodyText base drawnToggle
  simp only [processToggleBodyTraced]
  split
  · exact .ok ⟨_, .stay le_rfl rfl⟩
  · cases toMdast bodyText with
    | none => exact .ok ⟨_, .stay le_rfl rfl⟩
    | some nodes => exact children.under _ _ _ _ _ _ _ drawnToggle

theorem rowsAppends_succ (fresh : FreshIds ids pageId)
    (row : RowAppends toMdast ids pageId fuel) (rows : RowsAppends toMdast ids pageId fuel) :
    RowsAppends toMdast ids pageId (fuel + 1) := by
  intro t tableId align rowIndex tableRows pos drawnTable
  cases tableRows with
  | nil => exact .ok ⟨_, .stay le_rfl rfl⟩
  | cons tableRow tableRows =>
      have next : ∀ t1 added,
          Appends ids (.node (some tableId) (pos ++ [rowIndex])) t t1 added →
          Returns (fun t2 => ∃ added,
            Appends ids (.siblings (· = tableId) pos rowIndex) t t2 added)
            (processTableRowsTraced toMdast ids fuel t1 tableId align (rowIndex + 1) tableRows
              pos) := fun _ _ first =>
        (rows _ _ _ _ _ _ (drawnTable.mono first.issued_le)).mono
          fun _ ⟨_, second⟩ => ⟨_, first.child fresh drawnTable second⟩
      rw [processTableRowsTraced_succ]
      cases tableRowOf tableRow with
      | some cells =>
          exact Returns.bind (row _ _ _ _ _ _ drawnTable) fun t1 ⟨_, first⟩ => next t1 _ first
      | none => exact next t _ (.stay le_rfl rfl)

theorem rowAppends_succ (fresh : FreshIds ids pageId)
    (cells : CellsAppends toMdast ids pageId fuel) :
    RowAppends toMdast ids pageId (fuel + 1) := by
  intro t tableCells rowIndex tableId align pos drawnTable
  exact (cells _ _ _ _ _ _ _ (.inr ⟨_, Nat.lt_succ_self _, rfl⟩)).mono
    fun _ ⟨_, appends⟩ => ⟨_, .opening fresh
      (fun _ same => Option.some.inj same ▸ drawnTable) appends
      (fun _ h => h) (fun _ after => after.under) fun _ after => after⟩

theorem cellsAppends_succ (fresh : FreshIds ids pageId)
    (children : ChildrenAppends toMdast ids pageId fuel)
    (cells : CellsAppends toMdast ids pageId fuel) :
    CellsAppends toMdast ids pageId (fuel + 1) := by
  intro t tableCells rowId rowIndex colIndex align pos drawnRow
  cases tableCells with
  | nil => exact .ok ⟨_, .stay le_rfl rfl⟩
  | cons tableCell tableCells =>
      have next : ∀ t1 added,
          Appends ids (.node (some rowId) (pos ++ [colIndex])) t t1 added →
          Returns (fun t2 => ∃ added,
            Appends ids (.siblings (· = rowId) pos colIndex) t t2 added)
            (processTableCellsTraced toMdast ids fuel t1 tableCells rowId rowIndex
              (colIndex + 1) align pos) := fun _ _ first =>
        (cells _ _ _ _ _ _ _ (drawnRow.mono first.issued_le)).mono
          fun _ ⟨_, second⟩ => ⟨_, first.child fresh drawnRow second⟩
      rw [processTableCellsTraced_succ]
      cases tableCellOf tableCell with
      | some cellChildren =>
          exact Returns.bind (children.under _ _ _ _ _ _ _ (.inr ⟨_, Nat.lt_succ_self _, rfl⟩))
            fun t1 ⟨_, inCell⟩ => next t1 _ (.opening fresh
              (fun _ same => Option.some.inj same ▸ drawnRow)
              (.paragraph fresh (.inr ⟨_, Nat.lt_succ_self _, rfl⟩) rfl rfl inCell)
              (fun _ h => h) (fun _ h => h) fun _ h => h)
      | none => exact next t _ (.stay le_rfl rfl)

theorem columnsAppends_succ (fresh : FreshIds ids pageId)
    (columnRows : ColumnRowsAppends toMdast ids pageId fuel)
    (columns : ColumnsAppends toMdast ids pageId fuel) :
    ColumnsAppends toMdast ids pageId (fuel + 1) := by
  intro t columnsId bodyRows colIndices pos drawnColumns sorted
  cases colIndices with
  | nil => exact .ok ⟨_, .stay le_rfl rfl⟩
  | cons colIndex colIndices =>
      obtain ⟨later, sorted⟩ := List.pairwise_cons.mp sorted
      exact Returns.bind (columnRows _ _ _ _ _ _ (.inr ⟨_, Nat.lt_succ_self _, rfl⟩))
        fun t1 ⟨_, inColumn⟩ => (columns _ _ _ _ _
          (drawnColumns.mono ((Nat.le_succ _).trans inColumn.issued_le)) sorted).mono
        fun _ ⟨_, rest⟩ => ⟨_, (Appends.column fresh drawnColumns rfl rfl
          inColumn).nextColumn fresh drawnColumns later rest⟩

theorem columnRowsAppends_succ (fresh : FreshIds ids pageId)
    (children : ChildrenAppends toMdast ids pageId fuel)
    (columnRows : ColumnRowsAppends toMdast ids pageId fuel) :
    ColumnRowsAppends toMdast ids pageId (fuel + 1) := by
  intro t columnId colIndex bodyRows pos rowIndex drawnColumn
  cases bodyRows with
  | nil => exact .ok ⟨_, .stay le_rfl rfl⟩
  | cons bodyRow bodyRows =>
      have drawnOwner : ∀ q, q = columnId → Drawn ids pageId t q :=
        fun _ same => same ▸ drawnColumn
      have next : ∀ t1 added,
          Appends ids (.under (· = columnId) (pos ++ [rowIndex, colIndex])) t t1 added →
          Returns (fun t2 => ∃ added,
            Appends ids (.columnRows columnId pos colIndex rowIndex) t t2 added)
            (processNotionColumnRowsTraced toMdast ids fuel t1 columnId colIndex bodyRows pos
              (rowIndex + 1)) := fun _ _ first =>
        (columnRows _ _ _ _ _ _ (drawnColumn.mono first.issued_le)).mono
          fun _ ⟨_, second⟩ => ⟨_, first.sequence fresh drawnOwner second (fun _ h => h)
            (fun _ h => .inl h)
            ⟨fun _ under => ⟨_, le_rfl, under⟩, fun _ under => ⟨_, le_rfl, under⟩,
              fun _ under => ⟨_, le_rfl, under⟩⟩
            ⟨fun _ cell => cell.mono, fun _ cell => cell.mono, fun _ cell => cell.mono⟩
            (fun _ under => under.of_pair) (fun _ under => under.of_pair)
            (fun _ under => under.of_pair) (fun _ cell => cell.underFrom)
            fun _ cell => cell.underFrom⟩
      rw [processNotionColumnRowsTraced_succ]
      cases columnCell colIndex bodyRow with
      | none => exact next t _ (.stay le_rfl rfl)
      | some cellChildren =>
          have drawnVisited : Drawn ids pageId
              (t.note [.visit (pos ++ [rowIndex, colIndex])]) columnId := drawnColumn
          dsimp only
          split
          · exact next _ _ (.visitedAt fresh drawnOwner (.stay le_rfl rfl))
          · exact Returns.bind
              (children.under _ _ _ _ _ _ _ (.inr ⟨_, Nat.lt_succ_self _, rfl⟩))
              fun t1 ⟨_, inCell⟩ => next t1 _ (.visitedAt fresh drawnOwner
                (.paragraph fresh drawnVisited rfl rfl inCell))

theorem walk_appends (toMdast : String → Option (List Node)) (ids : Nat → String)
    (fresh : FreshIds ids pageId) (fuel : Nat) :
    NodeAppends toMdast ids pageId fuel ∧ ContentAppends toMdast ids pageId fuel ∧
      ChildrenAppends toMdast ids pageId fuel ∧ ToggleBodyAppends toMdast ids pageId fuel ∧
      RowsAppends toMdast ids pageId fuel ∧ RowAppends toMdast ids pageId fuel ∧
      CellsAppends toMdast ids pageId fuel ∧ ColumnsAppends toMdast ids pageId fuel ∧
      ColumnRowsAppends toMdast ids pageId fuel := by
  induction fuel with
  | zero =>
      refine ⟨?_, ?_, ?_, ?_, ?_, ?_, ?_, ?_, ?_⟩ <;> intro t <;> intros <;>
        exact Returns.error _
  | succ fuel inductionHypothesis =>
      obtain ⟨node, content, children, body, rows, row, cells, columns, columnRows⟩ :=
        inductionHypothesis
      exact ⟨nodeAppends_succ fresh children content columns,
        contentAppends_succ fresh children rows, childrenAppends_succ fresh node children body,
        toggleBodyAppends_succ children, rowsAppends_succ fresh row rows,
        rowAppends_succ fresh cells, cellsAppends_succ fresh children cells,
        columnsAppends_succ fresh columnRows columns,
        columnRowsAppends_succ fresh children columnRows⟩

end Walk

namespace Entry

variable {q : String} {e : Entry}

theorem childOf_eq_some {child : String × List Nat} (made : e.childOf q = some child) :
    e.owner = some q ∧ e.pos = child.2 := by
  unfold childOf at made
  split at made
  · split_ifs at made with same
    cases made
    exact ⟨congrArg some same.symm, rfl⟩
  · cases made

theorem textOf_eq_some {segment : TextInsert × List Nat} (written : e.textOf q = some segment) :
    e.owner = some q ∧ e.pos = segment.2 := by
  unfold textOf at written
  split at written
  · split_ifs at written with same
    cases written
    exact ⟨congrArg some same.symm, rfl⟩
  · cases written

theorem visited_eq_some {p : List Nat} (visit : e.visited = some p) : e = .visit p := by
  unfold visited at visit
  split at visit
  · cases visit
    rfl
  · cases visit

end Entry

namespace InOrder

variable {log : List Entry}

theorem visits_nodup (ordered : log.Pairwise InOrder) : (log.filterMap Entry.visited).Nodup :=
  ordered.filterMap _ fun _ _ order p visit _ visit' => by
    obtain rfl := Entry.visited_eq_some visit
    obtain rfl := Entry.visited_eq_some visit'
    exact fun same => order.2 p rfl (congrArg Entry.visit same.symm)

theorem children_lt (q : String) (ordered : log.Pairwise InOrder) :
    ((log.filterMap (Entry.childOf q)).map Prod.snd).Pairwise (· < ·) :=
  List.pairwise_map.mpr (ordered.filterMap _ fun _ _ order _ made _ made' => by
    obtain ⟨owner, atPos⟩ := Entry.childOf_eq_some made
    obtain ⟨owner', atPos'⟩ := Entry.childOf_eq_some made'
    rw [← atPos, ← atPos']
    exact order.1 q owner owner')

theorem text_lt (q : String) (ordered : log.Pairwise InOrder) :
    ((log.filterMap (Entry.textOf q)).map Prod.snd).Pairwise (· < ·) :=
  List.pairwise_map.mpr (ordered.filterMap _ fun _ _ order _ written _ written' => by
    obtain ⟨owner, atPos⟩ := Entry.textOf_eq_some written
    obtain ⟨owner', atPos'⟩ := Entry.textOf_eq_some written'
    rw [← atPos, ← atPos']
    exact order.1 q owner owner')

end InOrder

theorem Appends.rootOrder {ids : Nat → String} {pageId : String} {t t' : Traced}
    {added : List Entry} (content : Appends ids (.inside (· = pageId) []) t t' added) :
    (.visit [] :: .block pageId none [] :: added).Pairwise InOrder := by
  refine .cons (fun e member => ⟨fun _ absent => Option.noConfusion absent,
    fun p same again => ?_⟩) (.cons (fun _ _ => ⟨fun _ absent => Option.noConfusion absent,
      fun _ absent => Entry.noConfusion absent⟩) content.inOrder)
  obtain rfl : [] = p := Entry.visit.inj same
  rcases List.mem_cons.mp member with rfl | member
  · exact Entry.noConfusion again
  · exact (content.visits [] (again ▸ member)).ne rfl

theorem importMdTraced_inOrder (importer : MDImporter) (ids : Nat → String) (pageId : String)
    (fresh : FreshIds ids pageId) (fuel : Nat) (md : String) :
    Returns (fun result => ∀ t, result = .ok t → t.log.Pairwise InOrder)
      (importer.importMdTraced ids fuel pageId md) := by
  cases fuel with
  | zero =>
      unfold MDImporter.importMdTraced
      split
      · exact .ok fun _ absent => Except.noConfusion absent
      · exact .error _
  | succ fuel =>
      rw [importMdTraced_succ]
      split
      · exact .ok fun _ absent => Except.noConfusion absent
      · rename_i children _
        refine Returns.bind ((walk_appends importer.toMdast ids fresh fuel).2.1
          (pageTraced pageId children) (.root children) pageId [] none none (.inl rfl))
          fun t ⟨_, content⟩ => .ok fun _ returned => ?_
        cases returned
        rw [content.log_eq]
        exact content.rootOrder

/-- The document `d` and the traced run `t` that built it: `t` visited no
node of the source twice, and every block's children list and every delta of
`d` is replayed by the entries of `t`'s log at strictly increasing positions,
that is in the document order of the nodes they come from. -/
structure InDocumentOrder (d : DocumentData) (t : Traced) : Prop where
  document : t.state.document = d
  visitedOnce : (t.log.filterMap Entry.visited).Nodup
  children : ∀ q, (d.meta.childrenMap.get? q).getD [] =
    (t.log.filterMap (Entry.childOf q)).map Prod.fst
  childrenOrdered : ∀ q, ((t.log.filterMap (Entry.childOf q)).map Prod.snd).Pairwise (· < ·)
  text : ∀ q, (d.meta.textMap.get? q).getD [] = (t.log.filterMap (Entry.textOf q)).map Prod.fst
  textOrdered : ∀ q, ((t.log.filterMap (Entry.textOf q)).map Prod.snd).Pairwise (· < ·)

/-- With an id supply whose ids are fresh, every document `import` returns is
built, in document order, by the traced import. -/
theorem importMd_documentOrder (importer : MDImporter) (ids : Nat → String) (pageId : String)
    (fresh : FreshIds ids pageId) (fuel : Nat) (md : String) (d : DocumentData)
    (imported : importer.importMd ids fuel pageId md = .ok (.ok d)) :
    ∃ t : Traced, importer.importMdTraced ids fuel pageId md = .ok (.ok t) ∧
      InDocumentOrder d t := by
  have tracks := importMdTraced_tracks importer ids fuel pageId md
  have ordered := importMdTraced_inOrder importer ids pageId fresh fuel md
  rw [imported] at tracks
  rcases traced : importer.importMdTraced ids fuel pageId md with _ | (_ | t)
  all_goals rw [traced] at tracks
  · exact tracks.elim
  · exact tracks.elim
  obtain ⟨document, replays⟩ := tracks
  have inOrder := ordered _ traced t rfl
  exact ⟨t, rfl, document, InOrder.visits_nodup inOrder, replays.children,
    fun q => InOrder.children_lt q inOrder, replays.text, fun q => InOrder.text_lt q inOrder⟩

theorem importMd_documentOrder_paragraphs :
    ∃ d, (⟨fun _ => some [.paragraph [.text "a"], .paragraph [.text "b"]]⟩ :
        MDImporter).importMd (fun n => ⟨List.replicate (n + 1) 'b'⟩) 10 "P" "a" =
        .ok (.ok d) ∧
      ∃ t, (⟨fun _ => some [.paragraph [.text "a"], .paragraph [.text "b"]]⟩ :
          MDImporter).importMdTraced (fun n => ⟨List.replicate (n + 1) 'b'⟩) 10 "P" "a" =
          .ok (.ok t) ∧ InDocumentOrder d t :=
  ⟨_, rfl, importMd_documentOrder
    ⟨fun _ => some [.paragraph [.text "a"], .paragraph [.text "b"]]⟩
    (fun n => ⟨List.replicate (n + 1) 'b'⟩) "P" (freshIds_replicate 1) 10 "a" _ rfl⟩

end MdImporter
