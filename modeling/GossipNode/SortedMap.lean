/-!
# Maps in key order

A finite map kept as a list of entries with strictly ascending keys.  The order is part of every
answer a node gives (a status report lists origins by name), so it belongs to the type, and two
maps with the same entries are equal.

The view is `get?`.  What each operation does to it is said once, beside the operation
(`get?_insert`, `get?_erase`), and `ext_get?` says that the view is all there is.
-/
namespace GossipNode

universe u v

variable {α : Type u} {β : Type v}

/-- A map from `α` to `β`, its entries in ascending order of key. -/
structure SortedMap (α : Type u) (β : Type v) [Ord α] where
  entries : List (α × β)
  ascending : entries.Pairwise (fun a b => compare a.1 b.1 = .lt)

namespace SortedMap

/-! ## On lists of entries -/

section Entries

variable [Ord α]

/-- The value at a key. -/
def lookup (k : α) : List (α × β) → Option β
  | [] => none
  | (k', v) :: r => if compare k k' = .eq then some v else lookup k r

/-- Put an entry in its place, over any entry of that key. -/
def insertEntry (k : α) (v : β) : List (α × β) → List (α × β)
  | [] => [(k, v)]
  | (k', v') :: r =>
    match compare k k' with
    | .lt => (k, v) :: (k', v') :: r
    | .eq => (k, v) :: r
    | .gt => (k', v') :: insertEntry k v r

theorem ne_of_compare_lt [Std.TransOrd α] {a b : α} (h : compare a b = .lt) : a ≠ b := by
  rintro rfl
  have : compare a a = .eq := Std.ReflCmp.compare_self
  rw [this] at h
  cases h

theorem mem_insertEntry {k : α} {v : β} {l : List (α × β)} {e : α × β}
    (h : e ∈ insertEntry k v l) : e = (k, v) ∨ e ∈ l := by
  induction l with
  | nil => simpa [insertEntry] using h
  | cons a r ih =>
    obtain ⟨k', v'⟩ := a
    simp only [insertEntry] at h
    split at h
    · simpa using h
    · simp only [List.mem_cons] at h ⊢
      rcases h with h | h
      · exact .inl h
      · exact .inr (.inr h)
    · simp only [List.mem_cons] at h ⊢
      rcases h with h | h
      · exact .inr (.inl h)
      · rcases ih h with h | h
        · exact .inl h
        · exact .inr (.inr h)

theorem ascending_insertEntry [Std.TransOrd α] {k : α} {v : β} {l : List (α × β)}
    (h : l.Pairwise (fun a b => compare a.1 b.1 = .lt)) :
    (insertEntry k v l).Pairwise (fun a b => compare a.1 b.1 = .lt) := by
  induction l with
  | nil => simp [insertEntry]
  | cons a r ih =>
    obtain ⟨k', v'⟩ := a
    rw [List.pairwise_cons] at h
    simp only [insertEntry]
    split
    next hlt =>
      refine List.pairwise_cons.2 ⟨fun e he => ?_, List.pairwise_cons.2 h⟩
      rcases List.mem_cons.1 he with rfl | he
      · exact hlt
      · exact Std.TransCmp.lt_trans hlt (h.1 e he)
    next heq =>
      exact List.pairwise_cons.2 ⟨fun e he => Std.TransCmp.lt_of_eq_of_lt heq (h.1 e he), h.2⟩
    next hgt =>
      refine List.pairwise_cons.2 ⟨fun e he => ?_, ih h.2⟩
      rcases mem_insertEntry he with rfl | he
      · exact Std.OrientedCmp.lt_of_gt hgt
      · exact h.1 e he

end Entries

/-! ## The type -/

variable [Ord α]

def empty : SortedMap α β := ⟨[], .nil⟩

instance : EmptyCollection (SortedMap α β) := ⟨empty⟩

instance : Inhabited (SortedMap α β) := ⟨empty⟩

instance [DecidableEq α] [DecidableEq β] : DecidableEq (SortedMap α β) := fun a b =>
  decidable_of_iff (a.entries = b.entries) ⟨fun h => by cases a; cases b; simp_all, congrArg _⟩

theorem ext {a b : SortedMap α β} (h : a.entries = b.entries) : a = b := by
  cases a; cases b; simp_all

def get? (m : SortedMap α β) (k : α) : Option β := lookup k m.entries

def contains (m : SortedMap α β) (k : α) : Bool := (m.get? k).isSome

def insert [Std.TransOrd α] (m : SortedMap α β) (k : α) (v : β) : SortedMap α β :=
  ⟨insertEntry k v m.entries, ascending_insertEntry m.ascending⟩

/-- Drop the entries that fail a test. -/
def filter (m : SortedMap α β) (p : α → β → Bool) : SortedMap α β :=
  ⟨m.entries.filter (fun e => p e.1 e.2), m.ascending.filter _⟩

def erase (m : SortedMap α β) (k : α) : SortedMap α β :=
  m.filter (fun k' _ => compare k k' != .eq)

/-- Replace the value at a key by a function of the value it had. -/
def alter [Std.TransOrd α] (m : SortedMap α β) (k : α) (f : Option β → β) : SortedMap α β :=
  m.insert k (f (m.get? k))

def mapValues {γ : Type v} (m : SortedMap α β) (f : β → γ) : SortedMap α γ :=
  ⟨m.entries.map (fun e => (e.1, f e.2)), by
    rw [List.pairwise_map]; exact m.ascending⟩

def ofList [Std.TransOrd α] (l : List (α × β)) : SortedMap α β :=
  l.foldl (fun m e => m.insert e.1 e.2) ∅

def keys (m : SortedMap α β) : List α := m.entries.map Prod.fst

def values (m : SortedMap α β) : List β := m.entries.map Prod.snd

def size (m : SortedMap α β) : Nat := m.entries.length

def isEmpty (m : SortedMap α β) : Bool := m.entries.isEmpty

/-! ## What the operations do to the view -/

@[simp] theorem get?_empty (k : α) : (∅ : SortedMap α β).get? k = none := rfl

theorem contains_eq_false_iff {m : SortedMap α β} {k : α} : m.contains k = false ↔ m.get? k = none := by
  rw [contains, Option.isSome_eq_false_iff, Option.isNone_iff_eq_none]

section Lawful

variable [Std.LawfulEqOrd α]

theorem lookup_insertEntry (k a : α) (v : β) (l : List (α × β)) :
    lookup a (insertEntry k v l) = if compare a k = .eq then some v else lookup a l := by
  induction l with
  | nil => simp [insertEntry, lookup]
  | cons e r ih =>
    obtain ⟨k', v'⟩ := e
    simp only [insertEntry]
    split
    · simp [lookup]
    next heq =>
      have : k = k' := Std.LawfulEqCmp.eq_of_compare heq
      subst this
      by_cases h : compare a k = .eq <;> simp [lookup, h]
    next hgt =>
      simp only [lookup, ih]
      by_cases h : compare a k' = .eq
      · have : a = k' := Std.LawfulEqCmp.eq_of_compare h
        subst this
        have : compare a k ≠ .eq := by
          intro h'
          have : a = k := Std.LawfulEqCmp.eq_of_compare h'
          subst this
          rw [h'] at hgt
          cases hgt
        simp [this]
      · simp [h]

variable [Std.TransOrd α]

@[simp] theorem get?_insert (m : SortedMap α β) (k a : α) (v : β) :
    (m.insert k v).get? a = if compare a k = .eq then some v else m.get? a :=
  lookup_insertEntry k a v m.entries

@[simp] theorem get?_insert_self (m : SortedMap α β) (k : α) (v : β) :
    (m.insert k v).get? k = some v := by
  simp

theorem get?_insert_eq_ite [DecidableEq α] (m : SortedMap α β) (k a : α) (v : β) :
    (m.insert k v).get? a = if a = k then some v else m.get? a := by
  rw [get?_insert]
  by_cases h : a = k
  · rw [if_pos h, if_pos (by rw [h]; exact Std.ReflCmp.compare_self)]
  · rw [if_neg h, if_neg (fun h' => h (Std.LawfulEqCmp.eq_of_compare h'))]

theorem get?_alter [DecidableEq α] (m : SortedMap α β) (k a : α) (f : Option β → β) :
    (m.alter k f).get? a = if a = k then some (f (m.get? k)) else m.get? a :=
  get?_insert_eq_ite m k a _

omit [Std.LawfulEqOrd α] [Std.TransOrd α] in
theorem lookup_eq_none {k : α} {l : List (α × β)} (h : ∀ e ∈ l, compare k e.1 ≠ .eq) :
    lookup k l = none := by
  induction l with
  | nil => rfl
  | cons e r ih =>
    rw [lookup, if_neg (h e List.mem_cons_self), ih (fun e' he => h e' (List.mem_cons_of_mem _ he))]

omit [Std.TransOrd α] in
theorem lookup_filter {l : List (α × β)} (h : l.Pairwise (fun a b => compare a.1 b.1 = .lt))
    (p : α → β → Bool) (k : α) :
    lookup k (l.filter (fun e => p e.1 e.2)) = (lookup k l).filter (p k) := by
  induction l with
  | nil => rfl
  | cons e r ih =>
    obtain ⟨k', v'⟩ := e
    rw [List.pairwise_cons] at h
    by_cases hk : compare k k' = .eq
    · obtain rfl : k = k' := Std.LawfulEqCmp.eq_of_compare hk
      have hr : lookup k (r.filter (fun e => p e.1 e.2)) = none :=
        lookup_eq_none (fun e he => by rw [h.1 e (List.mem_filter.1 he).1]; decide)
      by_cases hp : p k v' <;> simp [lookup, hp, hr, Option.filter]
    · by_cases hp : p k' v' <;> simp [lookup, hp, hk, ih h.2]

omit [Std.TransOrd α] in
theorem get?_filter (m : SortedMap α β) (p : α → β → Bool) (k : α) :
    (m.filter p).get? k = (m.get? k).filter (p k) :=
  lookup_filter m.ascending p k

omit [Std.TransOrd α] in
@[simp] theorem get?_erase (m : SortedMap α β) (k a : α) :
    (m.erase k).get? a = if compare k a = .eq then none else m.get? a := by
  rw [erase, get?_filter]
  cases m.get? a <;> by_cases h : compare k a = .eq <;> simp [Option.filter, h]

omit [Std.TransOrd α] in
theorem contains_of_erase {m : SortedMap α β} {k a : α} (h : (m.erase k).contains a = true) :
    m.contains a = true := by
  unfold contains at h ⊢
  rw [get?_erase] at h
  split at h
  · cases h
  · exact h

omit [Std.LawfulEqOrd α] [Std.TransOrd α] in
@[simp] theorem get?_mapValues {γ : Type v} (m : SortedMap α β) (f : β → γ) (k : α) :
    (m.mapValues f).get? k = (m.get? k).map f := by
  obtain ⟨l, hl⟩ := m
  show lookup k (l.map (fun e => (e.1, f e.2))) = (lookup k l).map f
  clear hl
  induction l with
  | nil => rfl
  | cons e r ih => by_cases h : compare k e.1 = .eq <;> simp [lookup, h, ih]

omit [Std.TransOrd α] in
theorem mem_entries {m : SortedMap α β} {k : α} {v : β} :
    (k, v) ∈ m.entries ↔ m.get? k = some v := by
  obtain ⟨l, hl⟩ := m
  show (k, v) ∈ l ↔ lookup k l = some v
  induction l with
  | nil => simp [lookup]
  | cons e r ih =>
    obtain ⟨k', v'⟩ := e
    rw [List.pairwise_cons] at hl
    by_cases hk : compare k k' = .eq
    · obtain rfl : k = k' := Std.LawfulEqCmp.eq_of_compare hk
      have : (k, v) ∉ r := fun he => by
        have := hl.1 _ he
        rw [hk] at this
        cases this
      simp [lookup, this, eq_comm]
    · have : k ≠ k' := fun h => hk (by rw [h]; exact Std.ReflCmp.compare_self)
      simp [lookup, hk, this, ih hl.2]

omit [Std.TransOrd α] in
theorem mem_keys {m : SortedMap α β} {k : α} : k ∈ m.keys ↔ m.contains k = true := by
  unfold keys contains
  rw [Option.isSome_iff_exists, List.mem_map]
  constructor
  · rintro ⟨e, he, rfl⟩
    exact ⟨e.2, mem_entries.1 he⟩
  · rintro ⟨v, hv⟩
    exact ⟨(k, v), mem_entries.2 hv, rfl⟩

omit [Std.LawfulEqOrd α] in
theorem nodup_keys (m : SortedMap α β) : m.keys.Nodup := by
  rw [keys, List.Nodup, List.pairwise_map]
  exact m.ascending.imp ne_of_compare_lt

omit [Std.TransOrd α] in
/-- To drop an entry makes a map smaller. -/
theorem size_erase_lt {m : SortedMap α β} {k : α} (h : m.contains k = true) : (m.erase k).size < m.size := by
  obtain ⟨v, hv⟩ := Option.isSome_iff_exists.1 h
  have hmem : (k, v) ∈ m.entries := mem_entries.2 hv
  have hdropped : ¬ (compare k k != .eq) = true := by
    rw [show compare k k = .eq from Std.ReflCmp.compare_self]
    decide
  exact List.length_filter_lt_length_iff_exists.2 ⟨(k, v), hmem, hdropped⟩

theorem lookup_ext {l l' : List (α × β)} (h : l.Pairwise (fun a b => compare a.1 b.1 = .lt))
    (h' : l'.Pairwise (fun a b => compare a.1 b.1 = .lt)) (e : ∀ k, lookup k l = lookup k l') :
    l = l' := by
  -- a head key below the other head key is a key of its own list only
  have heads : ∀ {k k' : α} {v v' : β} {r r' : List (α × β)},
      ((k', v') :: r').Pairwise (fun a b => compare a.1 b.1 = .lt) → compare k k' = .lt →
      lookup k ((k, v) :: r) ≠ lookup k ((k', v') :: r') := by
    intro k k' v v' r r' h' hlt
    rw [List.pairwise_cons] at h'
    have : lookup k ((k', v') :: r') = none := lookup_eq_none (fun e he => by
      rcases List.mem_cons.1 he with rfl | he
      · rw [hlt]; decide
      · rw [Std.TransCmp.lt_trans hlt (h'.1 e he)]; decide)
    rw [this]
    simp [lookup]
  induction l generalizing l' with
  | nil =>
    cases l' with
    | nil => rfl
    | cons b r' => simpa [lookup] using e b.1
  | cons a r ih =>
    cases l' with
    | nil => simpa [lookup] using e a.1
    | cons b r' =>
      obtain ⟨k, v⟩ := a
      obtain ⟨k', v'⟩ := b
      cases hc : compare k k' with
      | lt => exact absurd (e k) (heads h' hc)
      | gt => exact absurd (e k').symm (heads h (Std.OrientedCmp.lt_of_gt hc))
      | eq =>
        obtain rfl : k = k' := Std.LawfulEqCmp.eq_of_compare hc
        rw [List.pairwise_cons] at h h'
        obtain rfl : v = v' := by simpa [lookup] using e k
        rw [ih h.2 h'.2]
        intro x
        by_cases hx : compare x k = .eq
        · obtain rfl : x = k := Std.LawfulEqCmp.eq_of_compare hx
          rw [lookup_eq_none (fun e he => by rw [h.1 e he]; decide),
            lookup_eq_none (fun e he => by rw [h'.1 e he]; decide)]
        · simpa [lookup, hx] using e x

/-- Maps with the same values at every key are equal. -/
theorem ext_get? {a b : SortedMap α β} (h : ∀ k, a.get? k = b.get? k) : a = b :=
  ext (lookup_ext a.ascending b.ascending h)

end Lawful

end SortedMap

abbrev SortedSet (α : Type u) [Ord α] := SortedMap α Unit

namespace SortedSet

variable [Ord α]

def add [Std.TransOrd α] (s : SortedSet α) (a : α) : SortedSet α := SortedMap.insert s a ()

def toList (s : SortedSet α) : List α := SortedMap.keys s

def ofList [Std.TransOrd α] (l : List α) : SortedSet α := l.foldl add ∅

@[simp] theorem length_toList (s : SortedSet α) : s.toList.length = SortedMap.size s := by
  simp [toList, SortedMap.keys, SortedMap.size]

theorem nodup_toList [Std.TransOrd α] (s : SortedSet α) : s.toList.Nodup := SortedMap.nodup_keys s

section Lawful

variable [Std.LawfulEqOrd α]

theorem mem_toList {s : SortedSet α} {a : α} : a ∈ s.toList ↔ SortedMap.contains s a = true := SortedMap.mem_keys

variable [Std.TransOrd α]

@[simp] theorem contains_add [DecidableEq α] (s : SortedSet α) (a b : α) :
    SortedMap.contains (s.add a) b = true ↔ b = a ∨ SortedMap.contains s b = true := by
  unfold add SortedMap.contains
  rw [SortedMap.get?_insert_eq_ite]
  split
  · rename_i h; simp [h]
  · rename_i h; simp [h]

@[simp] theorem mem_toList_add [DecidableEq α] {s : SortedSet α} {a b : α} :
    b ∈ (s.add a).toList ↔ b = a ∨ b ∈ s.toList := by
  rw [mem_toList, mem_toList, contains_add]

theorem ext_contains {s s' : SortedSet α} (h : ∀ a, SortedMap.contains s a = SortedMap.contains s' a) : s = s' := by
  refine SortedMap.ext_get? fun a => ?_
  have same := h a
  unfold SortedMap.contains at same
  cases hs : SortedMap.get? s a <;> cases hs' : SortedMap.get? s' a <;> simp_all

end Lawful

end SortedSet

end GossipNode
