import MdImporter.RustStr

/-!
# Callout and toggle fragments

Notion exports callouts as `<aside>` and toggles as `<details>` with a
`<summary>`; the parser hands them over as raw `Html` values. These are the
importer's string-level recognisers for them. `extract_tag_content` slices by
byte offsets, so it can panic unless the offsets are char boundaries.
-/

namespace MdImporter

set_option autoImplicit false

open RustStr

/-- An `<aside>` fragment: the lifted icon (empty when none) and the text. -/
structure ParsedAside where
  icon : String
  content : String
  deriving DecidableEq, Repr

/-- `parse_aside_html`: strip the tags, and lift a first character that is not
ASCII alphanumeric into the icon. -/
def parseAsideHtml (html : String) : Option ParsedAside :=
  let html := trim html
  if !startsWith html "<aside>" then none
  else
    let content := trim (trimStartMatches html "<aside>")
    let content := match stripSuffix content "</aside>" with
      | some stripped => trim stripped
      | none => content
    match content.data with
    | [] => some ⟨"", content⟩
    | first :: rest =>
        if !isAsciiAlphanumeric first then some ⟨⟨[first]⟩, trimStart ⟨rest⟩⟩
        else some ⟨"", content⟩

/-- `extract_tag_content`: the text between the first `<tag>` and the first
`</tag>` after it, and the text after that closing tag. -/
def extractTagContent (input tag : String) : Except Fault (Option (String × String)) := do
  let openTag := "<" ++ tag ++ ">"
  let closeTag := "</" ++ tag ++ ">"
  match find input openTag with
  | none => pure none
  | some start =>
      let afterOpen ← sliceFrom input (start + byteLen openTag.data)
      match find afterOpen closeTag with
      | none => pure none
      | some stop =>
          let content ← sliceTo afterOpen stop
          let afterClose ← sliceFrom afterOpen (stop + byteLen closeTag.data)
          pure (some (content, afterClose))

theorem extractTagContent_opened {input tag : String} {before rest : List Char}
    (split : input.data = before ++ ("<" ++ tag ++ ">").data ++ rest)
    (first : NoMatchBefore ("<" ++ tag ++ ">").data input.data before.length) :
    extractTagContent input tag =
      match findFrom ("</" ++ tag ++ ">").data 0 rest with
      | none => .ok none
      | some stop => (do
          let content ← sliceTo ⟨rest⟩ stop
          let afterClose ← sliceFrom ⟨rest⟩ (stop + byteLen ("</" ++ tag ++ ">").data)
          pure (some (content, afterClose))) := by
  have opened : find input ("<" ++ tag ++ ">") = some (0 + byteLen before) := by
    rw [find, split]
    exact findFrom_of_first before 0 (split ▸ first)
  have afterOpen : sliceFrom input (0 + byteLen before + byteLen ("<" ++ tag ++ ">").data) =
      .ok ⟨rest⟩ := by
    rw [Nat.zero_add, ← byteLen_append]
    exact sliceFrom_of_split (by simpa using split)
  simp only [extractTagContent, opened, afterOpen, bind, Except.bind]
  rfl

theorem extractTagContent_closed {tag : String} {content after : List Char}
    (first : NoMatchBefore ("</" ++ tag ++ ">").data (content ++ ("</" ++ tag ++ ">").data ++ after)
      content.length) :
    (match findFrom ("</" ++ tag ++ ">").data 0 (content ++ ("</" ++ tag ++ ">").data ++ after) with
      | none => (.ok none : Except Fault (Option (String × String)))
      | some stop => (do
          let c ← sliceTo ⟨content ++ ("</" ++ tag ++ ">").data ++ after⟩ stop
          let afterClose ← sliceFrom ⟨content ++ ("</" ++ tag ++ ">").data ++ after⟩
            (stop + byteLen ("</" ++ tag ++ ">").data)
          pure (some (c, afterClose)))) = .ok (some (⟨content⟩, ⟨after⟩)) := by
  rw [findFrom_of_first content 0 first, Nat.zero_add]
  dsimp only
  rw [sliceTo_of_split (show (String.mk _).data = content ++ (("</" ++ tag ++ ">").data ++ after)
      by simp), ← byteLen_append, @sliceFrom_of_split ⟨_⟩ _ after rfl]
  rfl

theorem extractTagContent_ok (input tag : String) :
    ∃ result, extractTagContent input tag = .ok result := by
  cases opened : find input ("<" ++ tag ++ ">") with
  | none => exact ⟨none, by simp [extractTagContent, opened, pure, Except.pure]⟩
  | some start =>
      obtain ⟨before, rest, split, -, first⟩ := findFrom_first opened
      rw [extractTagContent_opened split first]
      cases closing : findFrom ("</" ++ tag ++ ">").data 0 rest with
      | none => exact ⟨none, rfl⟩
      | some stop =>
          obtain ⟨content, after, rfl, -, firstClose⟩ := findFrom_first closing
          rw [← closing]
          exact ⟨_, extractTagContent_closed firstClose⟩

theorem extractTagContent_found {input tag content after : String}
    (found : extractTagContent input tag = .ok (some (content, after))) :
    ∃ before, input.data = before ++ ("<" ++ tag ++ ">").data ++ content.data ++
        ("</" ++ tag ++ ">").data ++ after.data ∧
      NoMatchBefore ("<" ++ tag ++ ">").data input.data before.length ∧
      NoMatchBefore ("</" ++ tag ++ ">").data
        (content.data ++ ("</" ++ tag ++ ">").data ++ after.data) content.length := by
  cases opened : find input ("<" ++ tag ++ ">") with
  | none => simp [extractTagContent, opened, pure, Except.pure] at found
  | some start =>
      obtain ⟨before, rest, split, -, first⟩ := findFrom_first opened
      rw [extractTagContent_opened split first] at found
      cases closing : findFrom ("</" ++ tag ++ ">").data 0 rest with
      | none =>
          rw [closing] at found
          cases found
      | some stop =>
          obtain ⟨content', after', rfl, -, firstClose⟩ := findFrom_first closing
          rw [extractTagContent_closed firstClose] at found
          cases found
          exact ⟨before, by simp [split], first, firstClose⟩

/-- `extract_tag_content` returns a pair exactly when the input has an opening
tag and, after the first one, a closing tag; the pair is the text between the
first opening tag and the first closing tag after it, and the text after that
closing tag. -/
theorem extractTagContent_leftmost (input tag : String) :
    ((∃ content after, extractTagContent input tag = .ok (some (content, after))) ↔
      ∃ before rest, input.data = before ++ ("<" ++ tag ++ ">").data ++ rest ∧
        NoMatchBefore ("<" ++ tag ++ ">").data input.data before.length ∧
        ("</" ++ tag ++ ">").data <:+: rest) ∧
    ∀ content after, (extractTagContent input tag = .ok (some (content, after)) ↔
      ∃ before, input.data = before ++ ("<" ++ tag ++ ">").data ++ content.data ++
          ("</" ++ tag ++ ">").data ++ after.data ∧
        NoMatchBefore ("<" ++ tag ++ ">").data input.data before.length ∧
        NoMatchBefore ("</" ++ tag ++ ">").data
          (content.data ++ ("</" ++ tag ++ ">").data ++ after.data) content.length) := by
  refine ⟨⟨fun ⟨content, after, found⟩ => ?_, fun ⟨before, rest, split, first, closes⟩ => ?_⟩,
    fun content after => ⟨extractTagContent_found, fun ⟨before, split, first, firstClose⟩ => ?_⟩⟩
  · obtain ⟨before, split, first, -⟩ := extractTagContent_found found
    exact ⟨before, content.data ++ ("</" ++ tag ++ ">").data ++ after.data, by simp [split], first,
      List.infix_append _ _ _⟩
  · obtain ⟨stop, closing⟩ := findFrom_of_infix 0 closes
    obtain ⟨content, after, rfl, -, firstClose⟩ := findFrom_first closing
    exact ⟨⟨content⟩, ⟨after⟩, by
      rw [extractTagContent_opened split first, extractTagContent_closed firstClose]⟩
  · rw [extractTagContent_opened (show input.data = before ++ ("<" ++ tag ++ ">").data ++
      (content.data ++ ("</" ++ tag ++ ">").data ++ after.data) by simp [split]) first,
      extractTagContent_closed firstClose]

theorem extractTagContent_after_lt {input tag content after : String}
    (found : extractTagContent input tag = .ok (some (content, after))) :
    after.length < input.length := by
  obtain ⟨before, split, -⟩ := extractTagContent_found found
  have lengths := congrArg List.length split
  simp only [List.length_append, String.data_append, List.length_cons, List.length_nil] at lengths
  show after.data.length < input.data.length
  omega

/-- A `<details>` fragment's summary and the body that follows it. -/
structure ParsedDetails where
  summary : String
  body : String
  deriving DecidableEq, Repr

/-- `parse_details_html`: a fragment with its own `<summary>` pair; without one
the `?` on `extract_tag_content` gives `None`. -/
def parseDetailsHtml (html : String) : Except Fault (Option ParsedDetails) := do
  let html := trim html
  if !startsWith html "<details>" then pure none
  else
    let rest := trimStartMatches html "<details>"
    match ← extractTagContent rest "summary" with
    | none => pure none
    | some (summary, afterSummary) =>
        let rest := afterSummary
        let body := trim ((stripSuffix (trim rest) "</details>").getD rest)
        pure (some ⟨trim summary, body⟩)

theorem parseDetailsHtml_ok (html : String) : ∃ result, parseDetailsHtml html = .ok result := by
  simp only [parseDetailsHtml]
  split
  · exact ⟨none, rfl⟩
  · obtain ⟨result, extracted⟩ :=
      extractTagContent_ok (trimStartMatches (trim html) "<details>") "summary"
    simp only [extracted, bind, Except.bind]
    split <;> exact ⟨_, rfl⟩

theorem parseDetailsHtml_body_lt {html : String} {details : ParsedDetails}
    (found : parseDetailsHtml html = .ok (some details)) : details.body.length < html.length := by
  simp only [parseDetailsHtml] at found
  split at found
  · cases found
  obtain ⟨result, extracted⟩ :=
    extractTagContent_ok (trimStartMatches (trim html) "<details>") "summary"
  simp only [extracted, bind, Except.bind] at found
  split at found
  · cases found
  · rename_i summaryText afterSummary
    cases found
    have shorter := extractTagContent_after_lt extracted
    have stripped : ((stripSuffix (trim afterSummary) "</details>").getD afterSummary).length ≤
        afterSummary.length := by
      cases stripping : stripSuffix (trim afterSummary) "</details>" with
      | none => exact le_refl _
      | some t => exact (stripSuffix_length_le stripping).trans (trim_length_le _)
    calc (trim ((stripSuffix (trim afterSummary) "</details>").getD afterSummary)).length
        ≤ afterSummary.length := (trim_length_le _).trans stripped
      _ < (trimStartMatches (trim html) "<details>").length := shorter
      _ ≤ html.length := (trimStartMatches_length_le _ _).trans (trim_length_le _)

theorem parseDetailsHtml_eq_none {html : String} (noSummary : ¬ "</summary>".data <:+: html.data) :
    parseDetailsHtml html = .ok none := by
  simp only [parseDetailsHtml]
  split
  · rfl
  obtain ⟨result, extracted⟩ :=
    extractTagContent_ok (trimStartMatches (trim html) "<details>") "summary"
  cases result with
  | none =>
      simp only [extracted, bind, Except.bind]
      rfl
  | some pair =>
      obtain ⟨before, split, -⟩ := extractTagContent_found extracted
      have inRest : "</summary>".data <:+: (trimStartMatches (trim html) "<details>").data :=
        ⟨_, _, split.symm⟩
      exact absurd ((inRest.trans (trimStartMatches_suffix _ _).isInfix).trans (trim_isInfix html))
        noSummary

end MdImporter
