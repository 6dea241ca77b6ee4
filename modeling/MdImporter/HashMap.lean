import Mathlib.Data.List.Nodup

/-!
# String-keyed maps

The document snapshot keeps its blocks, children lists and deltas in
`HashMap<String, _>`s. The model keeps the entries in insertion order with
distinct keys; only `get?`, `keys` and the `entry` API are used, so the order
is never observed by the importer.
-/

namespace MdImporter

set_option autoImplicit false

/-- Look a key up in an association list. -/
def lookupEntry {α : Type} (key : String) : List (String × α) → Option α
  | [] => none
  | entry :: rest => if entry.1 = key then some entry.2 else lookupEntry key rest

/-- A `HashMap<String, α>`: entries in insertion order, with distinct keys. -/
structure HashMap (α : Type) where
  entries : List (String × α)
  nodup : (entries.map Prod.fst).Nodup

namespace HashMap

variable {α : Type}

instance [DecidableEq α] : DecidableEq (HashMap α) := fun a b =>
  decidable_of_iff (a.entries = b.entries) (by cases a; cases b; simp)

/-- `HashMap::new`. -/
def empty : HashMap α := ⟨[], List.nodup_nil⟩

/-- The keys, in insertion order. -/
def keys (m : HashMap α) : List String := m.entries.map Prod.fst

/-- `HashMap::get`. -/
def get? (m : HashMap α) (key : String) : Option α := lookupEntry key m.entries

/-- The entries after `entry(key).or_insert(default)` and `update` on the value. -/
def upsertEntries (entries : List (String × α)) (key : String) (default : α)
    (update : α → α) : List (String × α) :=
  if key ∈ entries.map Prod.fst then
    entries.map fun entry => if entry.1 = key then (entry.1, update entry.2) else entry
  else entries ++ [(key, update default)]

theorem upsertEntries_keys (entries : List (String × α)) (key : String) (default : α)
    (update : α → α) :
    (upsertEntries entries key default update).map Prod.fst =
      if key ∈ entries.map Prod.fst then entries.map Prod.fst
      else entries.map Prod.fst ++ [key] := by
  unfold upsertEntries
  split
  · simp only [List.map_map]
    congr 1
    funext entry
    by_cases same : entry.1 = key <;> simp [same]
  · simp

/-- `entry(key).or_insert(default)` followed by `update` on the stored value. -/
def upsert (m : HashMap α) (key : String) (default : α) (update : α → α) : HashMap α :=
  ⟨upsertEntries m.entries key default update, by
    rw [upsertEntries_keys]
    split
    · exact m.nodup
    · exact m.nodup.append (List.nodup_singleton key) (List.disjoint_singleton.mpr ‹_›)⟩

/-- `HashMap::insert`. -/
def insert (m : HashMap α) (key : String) (value : α) : HashMap α :=
  m.upsert key value fun _ => value

@[simp] theorem keys_empty : (empty : HashMap α).keys = [] := rfl

@[simp] theorem get?_empty (key : String) : (empty : HashMap α).get? key = none := rfl

theorem keys_upsert (m : HashMap α) (key : String) (default : α) (update : α → α) :
    (m.upsert key default update).keys =
      if key ∈ m.keys then m.keys else m.keys ++ [key] :=
  upsertEntries_keys m.entries key default update

@[simp] theorem mem_keys_upsert (m : HashMap α) (key other : String) (default : α)
    (update : α → α) :
    other ∈ (m.upsert key default update).keys ↔ other = key ∨ other ∈ m.keys := by
  rw [keys_upsert]
  split
  · exact ⟨Or.inr, fun found => found.elim (fun same => same ▸ ‹_›) id⟩
  · simp [or_comm]

theorem upsert_entries_of_not_mem {m : HashMap α} {key : String} (fresh : key ∉ m.keys)
    (default : α) (update : α → α) :
    (m.upsert key default update).entries = m.entries ++ [(key, update default)] := by
  simp only [upsert, upsertEntries]
  exact if_neg fresh

theorem lookupEntry_isSome_iff (entries : List (String × α)) (key : String) :
    (lookupEntry key entries).isSome ↔ key ∈ entries.map Prod.fst := by
  induction entries with
  | nil => simp [lookupEntry]
  | cons entry rest inductionHypothesis =>
      by_cases same : entry.1 = key
      · simp [lookupEntry, same]
      · simp only [lookupEntry, if_neg same, inductionHypothesis, List.map_cons, List.mem_cons]
        exact ⟨Or.inr, fun found => found.resolve_left (Ne.symm same)⟩

theorem lookupEntry_map_update (entries : List (String × α)) (key other : String)
    (update : α → α) :
    lookupEntry other
        (entries.map fun entry => if entry.1 = key then (entry.1, update entry.2) else entry) =
      if other = key then (lookupEntry key entries).map update else lookupEntry other entries := by
  split
  · rename_i same
    subst same
    induction entries with
    | nil => rfl
    | cons entry rest inductionHypothesis =>
        by_cases found : entry.1 = other <;> simp [lookupEntry, found, inductionHypothesis]
  · rename_i different
    induction entries with
    | nil => rfl
    | cons entry rest inductionHypothesis =>
        by_cases found : entry.1 = other <;> by_cases same : entry.1 = key <;>
          simp_all [lookupEntry]

theorem lookupEntry_append_singleton (entries : List (String × α)) (key other : String)
    (value : α) :
    lookupEntry other (entries ++ [(key, value)]) =
      (lookupEntry other entries).or (if key = other then some value else none) := by
  induction entries with
  | nil => simp [lookupEntry]
  | cons entry rest inductionHypothesis =>
      by_cases found : entry.1 = other <;> simp_all [lookupEntry]

theorem mem_keys_iff_get? (m : HashMap α) (key : String) :
    key ∈ m.keys ↔ (m.get? key).isSome :=
  (lookupEntry_isSome_iff m.entries key).symm

theorem mem_keys_of_get? {m : HashMap α} {key : String} {value : α}
    (found : m.get? key = some value) : key ∈ m.keys :=
  (mem_keys_iff_get? m key).mpr (by simp [found])

theorem get?_eq_none_of_not_mem {m : HashMap α} {key : String} (missing : key ∉ m.keys) :
    m.get? key = none :=
  Option.not_isSome_iff_eq_none.mp (mt (mem_keys_iff_get? m key).mpr missing)

theorem get?_upsert (m : HashMap α) (key other : String) (default : α) (update : α → α) :
    (m.upsert key default update).get? other =
      if other = key then some (update ((m.get? key).getD default)) else m.get? other := by
  simp only [get?, upsert, upsertEntries]
  split
  · rename_i present
    rw [lookupEntry_map_update]
    obtain ⟨value, found⟩ := Option.isSome_iff_exists.mp
      ((lookupEntry_isSome_iff m.entries key).mpr present)
    simp [found]
  · rename_i absent
    have missing : lookupEntry key m.entries = none :=
      Option.not_isSome_iff_eq_none.mp (mt (lookupEntry_isSome_iff _ _).mp absent)
    rw [lookupEntry_append_singleton]
    split
    · subst other
      simp [missing]
    · simp [Ne.symm ‹_›]

@[simp] theorem get?_upsert_self (m : HashMap α) (key : String) (default : α)
    (update : α → α) :
    (m.upsert key default update).get? key = some (update ((m.get? key).getD default)) := by
  simp [get?_upsert]

theorem get?_upsert_ne (m : HashMap α) {key other : String} (different : other ≠ key)
    (default : α) (update : α → α) :
    (m.upsert key default update).get? other = m.get? other := by
  simp [get?_upsert, different]

theorem lookupEntry_append (first second : List (String × α)) (key : String) :
    lookupEntry key (first ++ second) = (lookupEntry key first).or (lookupEntry key second) := by
  induction first with
  | nil => simp [lookupEntry]
  | cons entry rest inductionHypothesis =>
      by_cases found : entry.1 = key <;> simp [lookupEntry, found, inductionHypothesis]

theorem lookupEntry_of_mem {entries : List (String × α)} (nodup : (entries.map Prod.fst).Nodup)
    {key : String} {value : α} (member : (key, value) ∈ entries) :
    lookupEntry key entries = some value := by
  induction entries with
  | nil => cases member
  | cons entry rest inductionHypothesis =>
      simp only [List.map_cons, List.nodup_cons] at nodup
      rcases List.mem_cons.mp member with same | later
      · subst same
        simp [lookupEntry]
      · have different : entry.1 ≠ key := fun same =>
          nodup.1 (same ▸ List.mem_map_of_mem Prod.fst later)
        simp [lookupEntry, different, inductionHypothesis nodup.2 later]

theorem mem_of_lookupEntry {entries : List (String × α)} {key : String} {value : α}
    (found : lookupEntry key entries = some value) : (key, value) ∈ entries := by
  induction entries with
  | nil => simp [lookupEntry] at found
  | cons entry rest inductionHypothesis =>
      by_cases same : entry.1 = key
      · simp only [lookupEntry, same, if_true, Option.some.injEq] at found
        subst found
        exact List.mem_cons.mpr (.inl (by rw [← same]))
      · simp only [lookupEntry, same, if_false] at found
        exact List.mem_cons_of_mem _ (inductionHypothesis found)

theorem get?_eq_some_iff (m : HashMap α) (key : String) (value : α) :
    m.get? key = some value ↔ (key, value) ∈ m.entries :=
  ⟨mem_of_lookupEntry, lookupEntry_of_mem m.nodup⟩

theorem get?_of_prefix {m m' : HashMap α} (grows : m.entries <+: m'.entries) {key : String}
    {value : α} (found : m.get? key = some value) : m'.get? key = some value := by
  obtain ⟨extra, grown⟩ := grows
  simp only [get?] at found ⊢
  rw [← grown, lookupEntry_append, found]
  rfl

theorem keys_of_prefix {m m' : HashMap α} (grows : m.entries <+: m'.entries) {key : String}
    (known : key ∈ m.keys) : key ∈ m'.keys := by
  obtain ⟨extra, grown⟩ := grows
  simp only [keys, ← grown, List.map_append, List.mem_append]
  exact .inl known

theorem insert_entries_of_not_mem {m : HashMap α} {key : String} (fresh : key ∉ m.keys)
    (value : α) : (m.insert key value).entries = m.entries ++ [(key, value)] :=
  upsert_entries_of_not_mem fresh value _

@[simp] theorem get?_insert (m : HashMap α) (key other : String) (value : α) :
    (m.insert key value).get? other = if other = key then some value else m.get? other := by
  simp [insert, get?_upsert]

@[simp] theorem mem_keys_insert (m : HashMap α) (key other : String) (value : α) :
    other ∈ (m.insert key value).keys ↔ other = key ∨ other ∈ m.keys :=
  mem_keys_upsert m key other value _

theorem keys_insert_of_not_mem {m : HashMap α} {key : String} (fresh : key ∉ m.keys)
    (value : α) : (m.insert key value).keys = m.keys ++ [key] := by
  simp only [keys, insert_entries_of_not_mem fresh, List.map_append, List.map_singleton]

theorem map_update_of_not_mem {β : Type} (entries : List (String × β)) (key : String)
    (update : β → β) (absent : key ∉ entries.map Prod.fst) :
    (entries.map fun entry => if entry.1 = key then (entry.1, update entry.2) else entry) =
      entries := by
  induction entries with
  | nil => rfl
  | cons entry rest inductionHypothesis =>
      simp only [List.map_cons, List.mem_cons, not_or] at absent
      simp [Ne.symm absent.1, inductionHypothesis absent.2]

theorem flatMap_map_push {β : Type} (entries : List (String × List β)) (key : String) (x : β)
    (nodup : (entries.map Prod.fst).Nodup) (present : key ∈ entries.map Prod.fst) :
    ((entries.map fun entry => if entry.1 = key then (entry.1, entry.2 ++ [x]) else entry).flatMap
      Prod.snd).Perm (entries.flatMap Prod.snd ++ [x]) := by
  induction entries with
  | nil => simp at present
  | cons entry rest inductionHypothesis =>
      simp only [List.map_cons, List.nodup_cons] at nodup
      by_cases same : entry.1 = key
      · rw [same] at nodup
        simp only [List.map_cons, same, if_true, List.flatMap_cons,
          map_update_of_not_mem rest key (· ++ [x]) nodup.1, List.append_assoc]
        exact List.Perm.append_left _ List.perm_append_comm
      · have later : key ∈ rest.map Prod.fst := by
          simp only [List.map_cons, List.mem_cons] at present
          exact present.resolve_left (Ne.symm same)
        simp only [List.map_cons, same, if_false, List.flatMap_cons, List.append_assoc]
        exact (inductionHypothesis nodup.2 later).append_left _

theorem flatMap_upsert_push {β : Type} (m : HashMap (List β)) (key : String) (x : β) :
    ((m.upsert key [] (· ++ [x])).entries.flatMap Prod.snd).Perm
      (m.entries.flatMap Prod.snd ++ [x]) := by
  simp only [upsert, upsertEntries]
  split
  · exact flatMap_map_push m.entries key x m.nodup ‹_›
  · simp

theorem flatMap_upsert_id {β : Type} (m : HashMap (List β)) (key : String) :
    (m.upsert key [] id).entries.flatMap Prod.snd = m.entries.flatMap Prod.snd := by
  simp only [upsert, upsertEntries]
  split
  · congr 1
    conv_rhs => rw [← List.map_id m.entries]
    congr 1
    funext entry
    split <;> rfl
  · simp

end HashMap

end MdImporter
