import MdImporter.Steps

/-!
The sibling loop of `process_mdast_node_children` opens a callout at an
`<aside>` sibling and a toggle at a `<details>` sibling, and then runs an
inner `while` loop that walks the following siblings under the new block up to
the matching closing tag. The model fuses the inner loops into the outer one
through `Pending`; `calloutLoop` and `toggleLoop` are the inner loops as the
source writes them, and `processMdastNodeChildren_callout` and
`processMdastNodeChildren_toggle` show that the fused loop runs them and then
carries on after the closing tag.

The opening test never looks at whether the fragment holds its own closing
tag: a self-closed `<aside>…</aside>` still opens the inner loop, which takes
every later sibling up to a closing sibling (`processMdastNodeChildren_aside`).
Inside an inner loop any sibling but the closing tag goes to
`process_mdast_node`, which makes an opening fragment a generic text block
holding the raw HTML (`importMd_nestedAside_degrades`).
-/

namespace MdImporter

set_option autoImplicit false

open RustStr

section Walk

variable (toMdast : String → Option (List Node)) (ids : Nat → String)

/-- The inner loop of an open callout: until a sibling whose trimmed value is
`</aside>`, walk each sibling under the callout. -/
def calloutLoop : Nat → ImportState → String → List Node → Option Node.ListType →
    Option Nat → Except Fault ImportState
  | _, s, _, [], _, _ => .ok s
  | 0, _, _, _ :: _, _, _ => .error .outOfFuel
  | fuel + 1, s, calloutId, node :: rest, listType, startNumber =>
      if isHtmlTag "</aside>" node then .ok s
      else do
        let s ← processMdastNode toMdast ids fuel s node (some calloutId) none listType startNumber
        calloutLoop fuel s calloutId rest listType startNumber

/-- The inner loop of an open toggle: until a sibling whose trimmed value is
`</details>`, take the first `<summary>` sibling as the summary (when none is
written yet) and re-parse what follows its closing tag into the toggle, and
walk every other sibling under the toggle. The result carries
`summary_written`. -/
def toggleLoop : Nat → ImportState → String → Bool → List Node → Option Node.ListType →
    Option Nat → Except Fault (ImportState × Bool)
  | _, s, _, summaryWritten, [], _, _ => .ok (s, summaryWritten)
  | 0, _, _, _, _ :: _, _, _ => .error .outOfFuel
  | fuel + 1, s, toggleId, summaryWritten, node :: rest, listType, startNumber =>
      match classifyToggleSibling summaryWritten node with
      | .close => .ok (s, summaryWritten)
      | .summary value => do
          match ← extractTagContent value "summary" with
          | some (summary, after) =>
              let s := s.edit (·.insertMarkdownAsInlineDelta toMdast toggleId summary)
              let s ← processToggleBody toMdast ids fuel s toggleId (trim after)
              toggleLoop fuel s toggleId true rest listType startNumber
          | none => toggleLoop fuel s toggleId summaryWritten rest listType startNumber
      | .other => do
          let s ← processMdastNode toMdast ids fuel s node (some toggleId) none listType startNumber
          toggleLoop fuel s toggleId summaryWritten rest listType startNumber

variable (parentId : Option String) (listType : Option Node.ListType) (startNumber : Option Nat)

theorem processMdastNodeChildren_calloutPrefix (fuel : Nat) (s : ImportState)
    (calloutId : String) (before rest : List Node)
    (unclosed : ∀ node ∈ before, isHtmlTag "</aside>" node = false) :
    processMdastNodeChildren toMdast ids (fuel + before.length + 1) s parentId
        (.callout calloutId) (before ++ rest) listType startNumber =
      calloutLoop toMdast ids (fuel + before.length + 1) s calloutId before listType
          startNumber >>= fun s =>
        processMdastNodeChildren toMdast ids (fuel + 1) s parentId (.callout calloutId) rest
          listType startNumber := by
  induction before generalizing s with
  | nil => rfl
  | cons node before inductionHypothesis =>
      have open_ := unclosed node (List.mem_cons_self _ _)
      rw [show fuel + (node :: before).length + 1 = fuel + before.length + 1 + 1 by
        simp only [List.length_cons]; omega]
      simp only [List.cons_append, processMdastNodeChildren, calloutLoop, open_,
        Bool.false_eq_true, if_false, bind_assoc]
      congr 1
      funext s
      exact inductionHypothesis s fun n member => unclosed n (List.mem_cons_of_mem _ member)

/-- Exactly the siblings before the first `</aside>` are walked under an open
callout; the loop then goes on after that closing sibling, under the original
parent. -/
theorem processMdastNodeChildren_callout (fuel : Nat) (s : ImportState) (calloutId : String)
    (before after : List Node) (closer : Node)
    (unclosed : ∀ node ∈ before, isHtmlTag "</aside>" node = false)
    (closes : isHtmlTag "</aside>" closer = true) :
    processMdastNodeChildren toMdast ids (fuel + before.length + 1) s parentId
        (.callout calloutId) (before ++ closer :: after) listType startNumber =
      calloutLoop toMdast ids (fuel + before.length + 1) s calloutId before listType
          startNumber >>= fun s =>
        processMdastNodeChildren toMdast ids fuel s parentId .none after listType
          startNumber := by
  rw [processMdastNodeChildren_calloutPrefix toMdast ids parentId listType startNumber fuel s
    calloutId before _ unclosed]
  simp only [processMdastNodeChildren, closes, if_true]

theorem processMdastNodeChildren_callout_paragraph :
    (∀ node ∈ [Node.paragraph [.text "a"]], isHtmlTag "</aside>" node = false) ∧
      isHtmlTag "</aside>" (.html " </aside>") = true ∧
      processMdastNodeChildren (fun _ => none) (fun _ => "x") (0 + 1 + 1) (pageState "P" [])
          (some "P") (.callout "P") [.paragraph [.text "a"], .html " </aside>"] none none =
        calloutLoop (fun _ => none) (fun _ => "x") (0 + 1 + 1) (pageState "P" []) "P"
            [.paragraph [.text "a"]] none none >>= fun s =>
          processMdastNodeChildren (fun _ => none) (fun _ => "x") 0 s (some "P") .none [] none
            none :=
  ⟨by decide, rfl, processMdastNodeChildren_callout (fun _ => none) (fun _ => "x") (some "P") none
    none 0 (pageState "P" []) "P" [.paragraph [.text "a"]] [] (.html " </aside>") (by decide) rfl⟩

/-- The state once an `<aside>` sibling has made its callout: the block under
the parent and the fragment's text folded into it. -/
def openCallout (s : ImportState) (callout : ParsedAside) : ImportState :=
  (({ s with issued := s.issued + 1 }.edit fun d =>
      (d.insertBlock (ids s.issued) (calloutBlock (ids s.issued) callout.icon parentId)).updateChildrenMap
        parentId (ids s.issued)).edit
    (·.insertMarkdownAsInlineDelta toMdast (ids s.issued) callout.content))

/-- An `<aside>` sibling opens the callout's inner loop whether or not it
closes itself: when no `</aside>` sibling follows, every later sibling of the
slice is walked under the callout. -/
theorem processMdastNodeChildren_aside (fuel : Nat) (s : ImportState) (node : Node)
    (callout : ParsedAside) (rest : List Node) (opens : classifySibling node = .aside callout)
    (unclosed : ∀ node ∈ rest, isHtmlTag "</aside>" node = false) :
    processMdastNodeChildren toMdast ids (fuel + rest.length + 2) s parentId .none
        (node :: rest) listType startNumber =
      calloutLoop toMdast ids (fuel + rest.length + 1)
        (openCallout toMdast ids parentId s callout) (ids s.issued) rest listType startNumber := by
  have walked := processMdastNodeChildren_calloutPrefix toMdast ids parentId listType startNumber
    fuel (openCallout toMdast ids parentId s callout) (ids s.issued) rest [] unclosed
  rw [List.append_nil] at walked
  rw [show fuel + rest.length + 2 = fuel + rest.length + 1 + 1 by omega]
  simp only [processMdastNodeChildren, opens, generateId]
  refine walked.trans ?_
  cases calloutLoop toMdast ids (fuel + rest.length + 1)
    (openCallout toMdast ids parentId s callout) (ids s.issued) rest listType startNumber <;> rfl

theorem processMdastNodeChildren_aside_selfClosed :
    classifySibling (.html "<aside>💡 Be careful</aside>") = .aside ⟨"💡", "Be careful"⟩ ∧
      (∀ node ∈ [Node.paragraph [.text "After"]], isHtmlTag "</aside>" node = false) ∧
      processMdastNodeChildren (fun _ => none) (fun _ => "x") (0 + 1 + 2) (pageState "P" [])
          (some "P") .none [.html "<aside>💡 Be careful</aside>", .paragraph [.text "After"]]
          none none =
        calloutLoop (fun _ => none) (fun _ => "x") (0 + 1 + 1)
          (openCallout (fun _ => none) (fun _ => "x") (some "P") (pageState "P" [])
            ⟨"💡", "Be careful"⟩) "x" [.paragraph [.text "After"]] none none :=
  ⟨rfl, by decide, processMdastNodeChildren_aside (fun _ => none) (fun _ => "x") (some "P") none
    none 0 (pageState "P" []) _ ⟨"💡", "Be careful"⟩ [.paragraph [.text "After"]] rfl
    (by decide)⟩

/-- A self-closed callout followed by a paragraph, as markdown-rs parses
`<aside>💡 Be careful</aside>` and `After` separated by a blank line: the
paragraph becomes the callout's child instead of the page's. -/
theorem importMd_selfClosedAside_adoptsParagraph :
    ∃ d, (⟨fun md =>
        if md = "<aside>💡 Be careful</aside>\n\nAfter" then
          some [.html "<aside>💡 Be careful</aside>", .paragraph [.text "After"]]
        else if md = "Be careful" then some [.paragraph [.text "Be careful"]]
        else none⟩ : MDImporter).importMd (fun n => ⟨List.replicate (n + 1) 'b'⟩) 10 "P"
          "<aside>💡 Be careful</aside>\n\nAfter" = .ok (.ok d) ∧
      d.meta.childrenMap.get? "P" = some ["b"] ∧ d.meta.childrenMap.get? "b" = some ["bb"] ∧
      (d.blocks.get? "bb").map Block.ty = some "paragraph" :=
  ⟨_, rfl, rfl, rfl, rfl⟩

/-- A callout whose text starts with a letter outside ASCII, as markdown-rs
parses `<aside>Été</aside>` (one `Html` node; the re-parse of `té` is one
paragraph): the letter `É` becomes the callout's icon and its delta holds
`té`. -/
theorem importMd_letterIcon_lifted :
    ∃ d, (⟨fun md =>
        if md = "<aside>Été</aside>" then some [.html "<aside>Été</aside>"]
        else if md = "té" then some [.paragraph [.text "té"]]
        else none⟩ : MDImporter).importMd (fun n => ⟨List.replicate (n + 1) 'b'⟩) 10 "P"
          "<aside>Été</aside>" = .ok (.ok d) ∧
      ((d.blocks.get? "b").map fun block => (block.ty, block.data.get? "icon")) =
        some ("callout", some (.string "É")) ∧
      d.meta.textMap.get? "b" = some [⟨"té", []⟩] :=
  ⟨_, rfl, rfl, rfl⟩

theorem classifyToggleSibling_eq_close (summaryWritten : Bool) (node : Node) :
    classifyToggleSibling summaryWritten node = .close ↔ isHtmlTag "</details>" node = true := by
  cases node <;> simp only [classifyToggleSibling, isHtmlTag, reduceCtorEq, Bool.false_eq_true]
  rename_i value
  by_cases closing : trim value = "</details>"
  · simp [closing]
  · simp only [closing, beq_iff_eq, if_false]
    split <;> simp [closing]

theorem processMdastNodeChildren_togglePrefix (fuel : Nat) (s : ImportState) (toggleId : String)
    (summaryWritten : Bool) (before rest : List Node)
    (unclosed : ∀ node ∈ before, isHtmlTag "</details>" node = false) :
    processMdastNodeChildren toMdast ids (fuel + before.length + 1) s parentId
        (.toggle toggleId summaryWritten) (before ++ rest) listType startNumber =
      toggleLoop toMdast ids (fuel + before.length + 1) s toggleId summaryWritten before listType
          startNumber >>= fun result =>
        processMdastNodeChildren toMdast ids (fuel + 1) result.1 parentId
          (.toggle toggleId result.2) rest listType startNumber := by
  induction before generalizing s summaryWritten with
  | nil => rfl
  | cons node before inductionHypothesis =>
      have later : ∀ n ∈ before, isHtmlTag "</details>" n = false :=
        fun n member => unclosed n (List.mem_cons_of_mem _ member)
      rw [show fuel + (node :: before).length + 1 = fuel + before.length + 1 + 1 by
        simp only [List.length_cons]; omega]
      simp only [List.cons_append, processMdastNodeChildren, toggleLoop]
      cases classified : classifyToggleSibling summaryWritten node with
      | close =>
          have := (classifyToggleSibling_eq_close summaryWritten node).mp classified
          simp [unclosed node (List.mem_cons_self _ _)] at this
      | summary value =>
          dsimp only
          cases extractTagContent value "summary" with
          | error fault => rfl
          | ok extracted =>
              cases extracted with
              | none => exact inductionHypothesis s summaryWritten later
              | some pair =>
                  simp only [bind, Except.bind]
                  cases processToggleBody toMdast ids (fuel + before.length + 1) _ toggleId
                    (trim pair.2) with
                  | error fault => rfl
                  | ok s => exact inductionHypothesis s true later
      | other =>
          simp only [bind_assoc]
          congr 1
          funext s
          exact inductionHypothesis s summaryWritten later

/-- Exactly the siblings before the first `</details>` are handled by an open
toggle's inner loop; the loop then goes on after that closing sibling, under
the original parent. -/
theorem processMdastNodeChildren_toggle (fuel : Nat) (s : ImportState) (toggleId : String)
    (summaryWritten : Bool) (before after : List Node) (closer : Node)
    (unclosed : ∀ node ∈ before, isHtmlTag "</details>" node = false)
    (closes : isHtmlTag "</details>" closer = true) :
    processMdastNodeChildren toMdast ids (fuel + before.length + 1) s parentId
        (.toggle toggleId summaryWritten) (before ++ closer :: after) listType startNumber =
      toggleLoop toMdast ids (fuel + before.length + 1) s toggleId summaryWritten before listType
          startNumber >>= fun result =>
        processMdastNodeChildren toMdast ids fuel result.1 parentId .none after listType
          startNumber := by
  rw [processMdastNodeChildren_togglePrefix toMdast ids parentId listType startNumber fuel s
    toggleId summaryWritten before _ unclosed]
  congr 1
  funext result
  simp only [processMdastNodeChildren, (classifyToggleSibling_eq_close _ _).mpr closes]

theorem processMdastNodeChildren_toggle_summary :
    (∀ node ∈ [Node.html "<summary>S</summary>", .paragraph [.text "a"]],
        isHtmlTag "</details>" node = false) ∧
      isHtmlTag "</details>" (.html "</details>") = true ∧
      processMdastNodeChildren (fun _ => none) (fun _ => "x") (0 + 2 + 1) (pageState "P" [])
          (some "P") (.toggle "P" false)
          [.html "<summary>S</summary>", .paragraph [.text "a"], .html "</details>"] none none =
        toggleLoop (fun _ => none) (fun _ => "x") (0 + 2 + 1) (pageState "P" []) "P" false
            [.html "<summary>S</summary>", .paragraph [.text "a"]] none none >>= fun result =>
          processMdastNodeChildren (fun _ => none) (fun _ => "x") 0 result.1 (some "P") .none []
            none none :=
  ⟨by decide, rfl, processMdastNodeChildren_toggle (fun _ => none) (fun _ => "x") (some "P") none
    none 0 (pageState "P" []) "P" false [.html "<summary>S</summary>", .paragraph [.text "a"]] []
    (.html "</details>") (by decide) rfl⟩

/-- The state once a `<details>` sibling has made its toggle, before anything
is written into it. -/
def openToggle (s : ImportState) : ImportState :=
  { s with issued := s.issued + 1 }.edit fun d =>
    (d.insertBlock (ids s.issued) (containerBlock .toggleList (ids s.issued) HashMap.empty
      (parentId.getD ""))).updateChildrenMap parentId (ids s.issued)

/-- A `<details>` sibling whose fragment holds no `</summary>` opens its toggle
and writes nothing of the fragment's text: the loop goes on over the later
siblings with the toggle open and no summary written. -/
theorem processMdastNodeChildren_detailsWithoutSummary (fuel : Nat) (s : ImportState)
    (node : Node) (value : String) (rest : List Node) (opens : classifySibling node = .details value)
    (noSummary : ¬ "</summary>".data <:+: value.data) :
    processMdastNodeChildren toMdast ids (fuel + 1) s parentId .none (node :: rest) listType
        startNumber =
      processMdastNodeChildren toMdast ids fuel (openToggle ids parentId s) parentId
        (.toggle (ids s.issued) false) rest listType startNumber := by
  simp only [processMdastNodeChildren, opens, generateId, parseDetailsHtml_eq_none noSummary]
  rfl

theorem processMdastNodeChildren_detailsWithoutSummary_body :
    classifySibling (.html "<details>body</details>") = .details "<details>body</details>" ∧
      ¬ "</summary>".data <:+: "<details>body</details>".data ∧
      processMdastNodeChildren (fun _ => none) (fun _ => "x") (0 + 1) (pageState "P" [])
          (some "P") .none [.html "<details>body</details>"] none none =
        processMdastNodeChildren (fun _ => none) (fun _ => "x") 0
          (openToggle (fun _ => "x") (some "P") (pageState "P" [])) (some "P") (.toggle "x" false)
          [] none none :=
  have opens : classifySibling (.html "<details>body</details>") =
      .details "<details>body</details>" := rfl
  have noSummary : ¬ "</summary>".data <:+: "<details>body</details>".data := by decide
  ⟨opens, noSummary, processMdastNodeChildren_detailsWithoutSummary (fun _ => none)
    (fun _ => "x") (some "P") none none 0 (pageState "P" []) _ _ [] opens noSummary⟩

/-- A toggle fragment without a summary, as markdown-rs parses
`<details>body</details>` (one `Html` node): the toggle `b` is made, and
`body` is in no delta and in no block. -/
theorem importMd_unsummarizedDetails_dropsBody :
    ∃ d, (⟨fun md =>
        if md = "<details>body</details>" then some [.html "<details>body</details>"]
        else if md = "body" then some [.paragraph [.text "body"]]
        else none⟩ : MDImporter).importMd (fun n => ⟨List.replicate (n + 1) 'b'⟩) 10 "P"
          "<details>body</details>" = .ok (.ok d) ∧
      d.blocks.keys = ["P", "b"] ∧ (d.blocks.get? "b").map Block.ty = some "toggle_list" ∧
      d.meta.textMap.keys = [] :=
  ⟨_, rfl, rfl, rfl, rfl⟩

/-- An `<aside>` inside an open callout, as markdown-rs parses
`<aside>`, `<aside>inner</aside>` and `</aside>` separated by blank lines: the
inner fragment becomes a generic text block holding the raw HTML, and the
document has one callout. -/
theorem importMd_nestedAside_degrades :
    ∃ d, (⟨fun md =>
        if md = "<aside>\n\n<aside>inner</aside>\n\n</aside>" then
          some [.html "<aside>", .html "<aside>inner</aside>", .html "</aside>"]
        else none⟩ : MDImporter).importMd (fun n => ⟨List.replicate (n + 1) 'b'⟩) 10 "P"
          "<aside>\n\n<aside>inner</aside>\n\n</aside>" = .ok (.ok d) ∧
      d.blocks.entries.map (fun entry => entry.2.ty) = ["page", "callout", "text"] ∧
      d.meta.textMap.get? "bb" = some [⟨"<aside>inner</aside>", []⟩] :=
  ⟨_, rfl, rfl, rfl⟩

end Walk

end MdImporter
