import MdImporter.Document
import MdImporter.RustStr

/-!
# Inline content

Inline nodes are folded into delta segments of the block they belong to.
The folder itself (`util::process_inline_mdast_node`) is not among the
sources and follows the spec; `insert_markdown_as_inline_delta`, which
re-parses a fragment's text and folds it into a callout or toggle, is
translated from the importer.
-/

namespace MdImporter

set_option autoImplicit false

open RustStr

/-- Add an attribute to a segment's set, keeping it a set. -/
def addAttribute (attributes : List Attribute) (added : Attribute) : List Attribute :=
  if added ∈ attributes then attributes else attributes ++ [added]

mutual
/-- Modelled from the spec: the segments an inline node contributes under the
attributes of its enclosing wrappers. Text, inline code and inline math give
their value; Strong, Emphasis, Delete and Link add bold, italic,
strikethrough or the link to their children's segments; Break gives a plain
newline; any other node is rendered to its text as one plain segment. -/
def inlineDelta (attributes : List Attribute) : Node → Delta
  | .text value => [⟨value, attributes⟩]
  | .inlineCode value => [⟨value, addAttribute attributes .code⟩]
  | .inlineMath value => [⟨value, addAttribute attributes .mathInline⟩]
  | .strong children => inlineDeltaList (addAttribute attributes .bold) children
  | .emphasis children => inlineDeltaList (addAttribute attributes .italic) children
  | .delete children => inlineDeltaList (addAttribute attributes .strikethrough) children
  | .link url children => inlineDeltaList (addAttribute attributes (.href url)) children
  | .break => [⟨"\n", []⟩]
  | node => [⟨node.toString, []⟩]

/-- The segments of a sequence of inline siblings, in order. -/
def inlineDeltaList (attributes : List Attribute) : List Node → Delta
  | [] => []
  | node :: rest => inlineDelta attributes node ++ inlineDeltaList attributes rest
end

namespace DocumentData

/-- Modelled from the spec: `util::process_inline_mdast_node` appends the
node's segments to the delta of `parent_id`. -/
def processInlineMdastNode (d : DocumentData) (node : Node) (parentId : Option String) :
    DocumentData :=
  match parentId with
  | some parent => d.insertDeltaToTextMap parent (inlineDelta [] node)
  | none => d

/-- One child of a re-parsed paragraph or heading: inline nodes are folded,
anything else is inserted as its text. -/
def insertInlineChild (d : DocumentData) (blockId : String) (child : Node) : DocumentData :=
  if child.isInlineNode then d.processInlineMdastNode child (some blockId)
  else d.insertDeltaToTextMap blockId [⟨child.toString, []⟩]

/-- `insert_markdown_as_inline_delta`: re-parse `markdown` and fold the
paragraphs and headings of the result into the block's delta; other block
kinds become their text, and a failed parse inserts the text verbatim. The
crate's `to_mdast` returns a `Root`, so the model's parser returns the root's
children. -/
def insertMarkdownAsInlineDelta (toMdast : String → Option (List Node)) (d : DocumentData)
    (blockId markdown : String) : DocumentData :=
  let md := trim markdown
  if md.isEmpty then d
  else match toMdast md with
    | none => d.insertDeltaToTextMap blockId [⟨md, []⟩]
    | some children =>
        children.foldl (fun d child =>
          match child with
          | .paragraph inline | .heading _ inline =>
              inline.foldl (fun d c => d.insertInlineChild blockId c) d
          | _ => d.insertDeltaToTextMap blockId [⟨child.toString, []⟩]) d

end DocumentData

end MdImporter
