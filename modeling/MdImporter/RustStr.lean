import Mathlib.Data.List.Infix

/-!
# Rust string slices

The fragment rewriters work on `&str` with the standard library's methods.
They are modelled over the characters of a `String`; byte offsets, which
`str::find` returns and slicing consumes, are sums of `Char.utf8Size`, so a
slice can be checked against the UTF-8 char boundaries the way Rust checks it.

`Fault` records how a Rust computation stops without returning: a panic, or,
for the walker, the model's fuel running out.
-/

namespace MdImporter

set_option autoImplicit false

/-- How a computation of the model ends without a value. -/
inductive Fault where
  | panic (message : String)
  | outOfFuel
  deriving DecidableEq, Repr

instance decidableEqExcept {ε α : Type} [DecidableEq ε] [DecidableEq α] :
    DecidableEq (Except ε α)
  | .ok a, .ok b => decidable_of_iff (a = b) (by simp)
  | .error a, .error b => decidable_of_iff (a = b) (by simp)
  | .ok _, .error _ => isFalse (by simp)
  | .error _, .ok _ => isFalse (by simp)

namespace RustStr

/-- `char::is_whitespace`: the Unicode `White_Space` property. -/
def isWhitespace (c : Char) : Bool :=
  let v := c.toNat
  (9 ≤ v && v ≤ 13) || v == 32 || v == 0x85 || v == 0xA0 || v == 0x1680 ||
    (0x2000 ≤ v && v ≤ 0x200A) || v == 0x2028 || v == 0x2029 || v == 0x202F ||
    v == 0x205F || v == 0x3000

/-- `char::is_ascii_alphanumeric`. -/
def isAsciiAlphanumeric (c : Char) : Bool :=
  ('0' ≤ c && c ≤ '9') || ('a' ≤ c && c ≤ 'z') || ('A' ≤ c && c ≤ 'Z')

/-- `str::trim_start`. -/
def trimStart (s : String) : String := ⟨s.data.dropWhile isWhitespace⟩

/-- `str::trim_end`. -/
def trimEnd (s : String) : String := ⟨(s.data.reverse.dropWhile isWhitespace).reverse⟩

/-- `str::trim`. -/
def trim (s : String) : String := trimEnd (trimStart s)

/-- `str::starts_with` for a string pattern. -/
def startsWith (s pattern : String) : Bool := pattern.data.isPrefixOf s.data

/-- `str::strip_suffix` for a string pattern. -/
def stripSuffix (s suffix : String) : Option String :=
  if suffix.data.isSuffixOf s.data then some ⟨s.data.take (s.length - suffix.length)⟩
  else none

/-- Strip `pattern` from the front for at most `rounds` rounds. -/
def trimStartMatchesAux (pattern : List Char) : Nat → List Char → List Char
  | 0, chars => chars
  | rounds + 1, chars =>
      if !pattern.isEmpty && pattern.isPrefixOf chars then
        trimStartMatchesAux pattern rounds (chars.drop pattern.length)
      else chars

/-- `str::trim_start_matches` for a string pattern: every repeated prefix
match is removed. Each round removes a non-empty prefix, so `s.length` rounds
are enough. -/
def trimStartMatches (s pattern : String) : String :=
  ⟨trimStartMatchesAux pattern.data s.length s.data⟩

/-- `str::len`: the length in UTF-8 bytes. -/
def byteLen : List Char → Nat
  | [] => 0
  | c :: chars => c.utf8Size + byteLen chars

/-- The byte offset of the first match of `pattern` in `chars`, counting
from `offset`. -/
def findFrom (pattern : List Char) : Nat → List Char → Option Nat
  | offset, [] => if pattern.isPrefixOf [] then some offset else none
  | offset, c :: rest =>
      if pattern.isPrefixOf (c :: rest) then some offset
      else findFrom pattern (offset + c.utf8Size) rest

/-- `str::find` for a string pattern: the byte index of the first match. -/
def find (s pattern : String) : Option Nat := findFrom pattern.data 0 s.data

/-- The characters after the first `n` bytes, when `n` is a char boundary. -/
def dropBytes : List Char → Nat → Option (List Char)
  | chars, 0 => some chars
  | [], _ + 1 => none
  | c :: rest, n + 1 =>
      if c.utf8Size ≤ n + 1 then dropBytes rest (n + 1 - c.utf8Size) else none

/-- The characters of the first `n` bytes, when `n` is a char boundary. -/
def takeBytes : List Char → Nat → Option (List Char)
  | _, 0 => some []
  | [], _ + 1 => none
  | c :: rest, n + 1 =>
      if c.utf8Size ≤ n + 1 then (takeBytes rest (n + 1 - c.utf8Size)).map (c :: ·)
      else none

/-- The panic of a slice whose byte index is past the end or inside a char. -/
def sliceFault (index : Nat) : Fault :=
  .panic ("byte index " ++ toString index ++ " is not a char boundary")

/-- `&s[index..]`, which panics unless `index` is a char boundary of `s`. -/
def sliceFrom (s : String) (index : Nat) : Except Fault String :=
  match dropBytes s.data index with
  | some chars => .ok ⟨chars⟩
  | none => .error (sliceFault index)

/-- `&s[..index]`, which panics unless `index` is a char boundary of `s`. -/
def sliceTo (s : String) (index : Nat) : Except Fault String :=
  match takeBytes s.data index with
  | some chars => .ok ⟨chars⟩
  | none => .error (sliceFault index)

@[simp] theorem byteLen_nil : byteLen [] = 0 := rfl

@[simp] theorem byteLen_cons (c : Char) (chars : List Char) :
    byteLen (c :: chars) = c.utf8Size + byteLen chars := rfl

@[simp] theorem byteLen_append (first second : List Char) :
    byteLen (first ++ second) = byteLen first + byteLen second := by
  induction first with
  | nil => simp
  | cons c rest inductionHypothesis =>
      simp only [List.cons_append, byteLen_cons, inductionHypothesis]
      omega

/-- No match of `pattern` starts at any of the first `n` characters of
`chars`. -/
def NoMatchBefore (pattern chars : List Char) (n : Nat) : Prop :=
  ∀ i < n, ¬ pattern <+: chars.drop i

theorem NoMatchBefore.cons {pattern chars : List Char} {c : Char} {n : Nat}
    (here : ¬ pattern <+: c :: chars) (later : NoMatchBefore pattern chars n) :
    NoMatchBefore pattern (c :: chars) (n + 1)
  | 0, _ => here
  | i + 1, lt => later i (by omega)

theorem NoMatchBefore.tail {pattern chars : List Char} {c : Char} {n : Nat}
    (noMatch : NoMatchBefore pattern (c :: chars) (n + 1)) : NoMatchBefore pattern chars n :=
  fun i lt => noMatch (i + 1) (by omega)

theorem findFrom_first {pattern : List Char} {offset index : Nat} {chars : List Char}
    (found : findFrom pattern offset chars = some index) :
    ∃ before after, chars = before ++ pattern ++ after ∧ index = offset + byteLen before ∧
      NoMatchBefore pattern chars before.length := by
  induction chars generalizing offset with
  | nil =>
      simp only [findFrom] at found
      split at found
      · rename_i matched
        obtain ⟨after, split⟩ := List.isPrefixOf_iff_prefix.mp matched
        exact ⟨[], after, by simpa using split.symm, by simpa using found.symm, nofun⟩
      · contradiction
  | cons c rest inductionHypothesis =>
      simp only [findFrom] at found
      split at found
      · rename_i matched
        obtain ⟨after, split⟩ := List.isPrefixOf_iff_prefix.mp matched
        exact ⟨[], after, by simpa using split.symm, by simpa using found.symm, nofun⟩
      · rename_i unmatched
        obtain ⟨before, after, split, offsetEq, first⟩ := inductionHypothesis found
        refine ⟨c :: before, after, by simp [split], by simp [offsetEq]; omega, ?_⟩
        exact NoMatchBefore.cons (fun matched => unmatched (List.isPrefixOf_iff_prefix.mpr matched))
          first

theorem findFrom_of_prefix {pattern chars : List Char} (offset : Nat)
    (matched : pattern <+: chars) : findFrom pattern offset chars = some offset := by
  cases chars <;> simp [findFrom, List.isPrefixOf_iff_prefix.mpr matched]

theorem findFrom_of_first {pattern after : List Char} :
    ∀ (before : List Char) (offset : Nat),
      NoMatchBefore pattern (before ++ pattern ++ after) before.length →
      findFrom pattern offset (before ++ pattern ++ after) = some (offset + byteLen before)
  | [], offset, _ => findFrom_of_prefix offset (List.prefix_append _ _)
  | c :: before, offset, first => by
      have unmatched : pattern.isPrefixOf (c :: (before ++ pattern ++ after)) = false :=
        Bool.eq_false_iff.mpr fun matched => first 0 (Nat.succ_pos _)
          (List.isPrefixOf_iff_prefix.mp matched)
      rw [List.cons_append, List.cons_append, findFrom, unmatched, if_neg Bool.false_ne_true,
        findFrom_of_first before _ first.tail, byteLen_cons, Nat.add_assoc]

theorem findFrom_of_infix {pattern chars : List Char} (offset : Nat)
    (occurs : pattern <:+: chars) : ∃ index, findFrom pattern offset chars = some index := by
  induction chars generalizing offset with
  | nil => exact ⟨offset, findFrom_of_prefix offset (by simpa using occurs)⟩
  | cons c rest inductionHypothesis =>
      rcases List.infix_cons_iff.mp occurs with matched | later
      · exact ⟨offset, findFrom_of_prefix offset matched⟩
      · rw [findFrom]
        split
        · exact ⟨offset, rfl⟩
        · exact inductionHypothesis _ later

theorem dropBytes_append (before after : List Char) :
    dropBytes (before ++ after) (byteLen before) = some after := by
  induction before with
  | nil => cases after <;> rfl
  | cons c rest inductionHypothesis =>
      obtain ⟨n, total⟩ : ∃ n, c.utf8Size + byteLen rest = n + 1 :=
        ⟨c.utf8Size + byteLen rest - 1, by have := Char.utf8Size_pos c; omega⟩
      rw [List.cons_append, byteLen_cons, total, dropBytes, if_pos (by omega),
        show n + 1 - c.utf8Size = byteLen rest by omega]
      exact inductionHypothesis

theorem takeBytes_append (before after : List Char) :
    takeBytes (before ++ after) (byteLen before) = some before := by
  induction before with
  | nil => cases after <;> rfl
  | cons c rest inductionHypothesis =>
      obtain ⟨n, total⟩ : ∃ n, c.utf8Size + byteLen rest = n + 1 :=
        ⟨c.utf8Size + byteLen rest - 1, by have := Char.utf8Size_pos c; omega⟩
      rw [List.cons_append, byteLen_cons, total, takeBytes, if_pos (by omega),
        show n + 1 - c.utf8Size = byteLen rest by omega, inductionHypothesis]
      rfl

theorem sliceFrom_of_split {s : String} {before after : List Char}
    (split : s.data = before ++ after) : sliceFrom s (byteLen before) = .ok ⟨after⟩ := by
  simp [sliceFrom, split, dropBytes_append]

theorem sliceTo_of_split {s : String} {before after : List Char}
    (split : s.data = before ++ after) : sliceTo s (byteLen before) = .ok ⟨before⟩ := by
  simp [sliceTo, split, takeBytes_append]

theorem trimStart_suffix (s : String) : (trimStart s).data <:+ s.data :=
  List.dropWhile_suffix _

theorem trimEnd_isPrefix (s : String) : (trimEnd s).data <+: s.data := by
  show (s.data.reverse.dropWhile isWhitespace).reverse <+: s.data
  rw [← List.reverse_suffix, List.reverse_reverse]
  exact List.dropWhile_suffix _

theorem trim_isInfix (s : String) : (trim s).data <:+: s.data :=
  (trimEnd_isPrefix _).isInfix.trans (trimStart_suffix s).isInfix

theorem trimStartMatchesAux_suffix (pattern : List Char) (rounds : Nat) (chars : List Char) :
    trimStartMatchesAux pattern rounds chars <:+ chars := by
  induction rounds generalizing chars with
  | zero => exact List.suffix_refl _
  | succ rounds inductionHypothesis =>
      simp only [trimStartMatchesAux]
      split
      · exact (inductionHypothesis _).trans (List.drop_suffix _ _)
      · exact List.suffix_refl _

theorem trimStartMatches_suffix (s pattern : String) : (trimStartMatches s pattern).data <:+ s.data :=
  trimStartMatchesAux_suffix _ _ _

theorem trim_length_le (s : String) : (trim s).length ≤ s.length :=
  (trim_isInfix s).length_le

theorem trimStartMatches_length_le (s pattern : String) :
    (trimStartMatches s pattern).length ≤ s.length :=
  (trimStartMatches_suffix s pattern).length_le

theorem stripSuffix_length_le {s suffix stripped : String}
    (found : stripSuffix s suffix = some stripped) : stripped.length ≤ s.length := by
  simp only [stripSuffix] at found
  split at found
  · cases found
    exact (List.take_prefix _ _).length_le
  · cases found

end RustStr

end MdImporter
