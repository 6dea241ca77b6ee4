import Mathlib.Data.List.Basic

/-!
# The mdast syntax tree

The importer walks the tree that the `markdown` crate's `to_mdast` returns.
`Node` keeps the variants that parser produces under GitHub-flavoured options
with math and autolinks, and of each variant the fields the importer reads.
The crate's textual rendering `Node::to_string` and the helpers of the
importer's `util` module that classify nodes are given here as well.
-/

namespace MdImporter

set_option autoImplicit false

/-- Column alignment of a GFM table (`mdast::AlignKind`). -/
inductive AlignKind where
  | left
  | right
  | center
  | none
  deriving DecidableEq, Repr

/-- An mdast node. Parents carry their children in document order. -/
inductive Node where
  | root (children : List Node)
  | blockquote (children : List Node)
  | footnoteDefinition (children : List Node)
  | list (ordered : Bool) (start : Option Nat) (children : List Node)
  | listItem (checked : Option Bool) (children : List Node)
  | paragraph (children : List Node)
  | heading (depth : Nat) (children : List Node)
  | thematicBreak
  | code (value : String) (lang : Option String)
  | math (value : String)
  | html (value : String)
  | table (align : List AlignKind) (children : List Node)
  | tableRow (children : List Node)
  | tableCell (children : List Node)
  | definition (url : String)
  | text (value : String)
  | emphasis (children : List Node)
  | strong (children : List Node)
  | delete (children : List Node)
  | inlineCode (value : String)
  | inlineMath (value : String)
  | «break»
  | link (url : String) (children : List Node)
  | image (url : String)
  | linkReference (children : List Node)
  | imageReference
  | footnoteReference
  deriving Repr

namespace Node

mutual
/-- The crate's `ToString for Node`: parents concatenate their children,
literals give their value, and void nodes (breaks, images, references,
definitions, thematic breaks) give the empty string. -/
def toString : Node → String
  | .root children | .blockquote children | .footnoteDefinition children
  | .list _ _ children | .listItem _ children | .paragraph children
  | .heading _ children | .table _ children | .tableRow children
  | .tableCell children | .emphasis children | .strong children
  | .delete children | .link _ children | .linkReference children =>
      childrenToString children
  | .code value _ | .math value | .html value | .text value
  | .inlineCode value | .inlineMath value => value
  | .thematicBreak | .definition _ | .break | .image _ | .imageReference
  | .footnoteReference => ""

/-- The crate's `children_to_string`. -/
def childrenToString : List Node → String
  | [] => ""
  | child :: rest => child.toString ++ childrenToString rest
end

/-- Modelled from the spec: `util::is_inline_node`. A node is inline iff it
is Text, InlineCode, InlineMath, Strong, Emphasis, Delete, Link or Break. -/
def isInlineNode : Node → Bool
  | .text _ | .inlineCode _ | .inlineMath _ | .strong _ | .emphasis _
  | .delete _ | .link _ _ | .break => true
  | _ => false

/-- The kind of list a `ListItem` is walked under. -/
inductive ListType where
  | bulleted
  | numbered
  | todo
  deriving DecidableEq, Repr

/-- Modelled from the spec: `util::get_mdast_node_info`. Only a list
container answers: its items, the kind of list they form (numbered when
ordered, a to-do list when an item carries a checkbox, bulleted otherwise) and
the ordered list's starting number. -/
def getMdastNodeInfo : Node → Option (List Node × ListType × Option Nat)
  | .list ordered start children =>
      let hasCheckbox := children.any fun
        | .listItem (some _) _ => true
        | _ => false
      some (children,
        if ordered then .numbered else if hasCheckbox then .todo else .bulleted,
        start)
  | _ => none

mutual
/-- Every `Html` value in the tree has at most `bound` characters. -/
def htmlWithin (bound : Nat) : Node → Bool
  | .html value => decide (value.length ≤ bound)
  | .root children | .blockquote children | .footnoteDefinition children
  | .list _ _ children | .listItem _ children | .paragraph children
  | .heading _ children | .table _ children | .tableRow children
  | .tableCell children | .emphasis children | .strong children
  | .delete children | .link _ children | .linkReference children =>
      htmlWithinList bound children
  | _ => true

/-- Every `Html` value in the forest has at most `bound` characters. -/
def htmlWithinList (bound : Nat) : List Node → Bool
  | [] => true
  | child :: rest => htmlWithin bound child && htmlWithinList bound rest
end

@[simp] theorem htmlWithinList_nil (bound : Nat) : htmlWithinList bound [] = true := rfl

@[simp] theorem htmlWithinList_cons (bound : Nat) (child : Node) (rest : List Node) :
    htmlWithinList bound (child :: rest) = (htmlWithin bound child && htmlWithinList bound rest) :=
  rfl

theorem htmlWithinList_iff (bound : Nat) (nodes : List Node) :
    htmlWithinList bound nodes = true ↔ ∀ node ∈ nodes, htmlWithin bound node = true := by
  induction nodes with
  | nil => simp
  | cons child rest inductionHypothesis => simp [inductionHypothesis]

mutual
theorem htmlWithin_mono {bound bound' : Nat} (le : bound ≤ bound') :
    ∀ node : Node, node.htmlWithin bound = true → node.htmlWithin bound' = true
  | .html _, within => by
      simp only [htmlWithin, decide_eq_true_eq] at within ⊢
      exact within.trans le
  | .root children, within | .blockquote children, within
  | .footnoteDefinition children, within | .list _ _ children, within
  | .listItem _ children, within | .paragraph children, within | .heading _ children, within
  | .table _ children, within | .tableRow children, within | .tableCell children, within
  | .emphasis children, within | .strong children, within | .delete children, within
  | .link _ children, within | .linkReference children, within =>
      htmlWithinList_mono le children within
  | .thematicBreak, _ | .code .., _ | .math _, _ | .definition _, _ | .text _, _
  | .inlineCode _, _ | .inlineMath _, _ | .«break», _ | .image _, _ | .imageReference, _
  | .footnoteReference, _ => rfl

theorem htmlWithinList_mono {bound bound' : Nat} (le : bound ≤ bound') :
    ∀ nodes : List Node, htmlWithinList bound nodes = true → htmlWithinList bound' nodes = true
  | [], _ => rfl
  | node :: rest, within => by
      simp only [htmlWithinList_cons, Bool.and_eq_true] at within ⊢
      exact ⟨htmlWithin_mono le node within.1, htmlWithinList_mono le rest within.2⟩
end

mutual
theorem exists_htmlWithin : ∀ node : Node, ∃ bound, node.htmlWithin bound = true
  | .html value => ⟨value.length, decide_eq_true (Nat.le_refl _)⟩
  | .root children | .blockquote children | .footnoteDefinition children
  | .list _ _ children | .listItem _ children | .paragraph children | .heading _ children
  | .table _ children | .tableRow children | .tableCell children | .emphasis children
  | .strong children | .delete children | .link _ children | .linkReference children =>
      exists_htmlWithinList children
  | .thematicBreak | .code .. | .math _ | .definition _ | .text _ | .inlineCode _
  | .inlineMath _ | .«break» | .image _ | .imageReference | .footnoteReference => ⟨0, rfl⟩

theorem exists_htmlWithinList : ∀ nodes : List Node, ∃ bound, htmlWithinList bound nodes = true
  | [] => ⟨0, rfl⟩
  | node :: rest =>
      let ⟨bound, first⟩ := exists_htmlWithin node
      let ⟨bound', second⟩ := exists_htmlWithinList rest
      ⟨max bound bound', by
        simp only [htmlWithinList_cons, Bool.and_eq_true]
        exact ⟨htmlWithin_mono (le_max_left _ _) node first,
          htmlWithinList_mono (le_max_right _ _) rest second⟩⟩
end

end Node

end MdImporter
