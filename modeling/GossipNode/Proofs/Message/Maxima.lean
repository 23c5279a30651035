import GossipNode.Message.Status
import GossipNode.Proofs.Text.Order
/-!
# Reports and maxima

A report means, for each origin that occurs in it, the greatest number given for it (`greatest_toVector`).  There is only
one such number, and neither the order nor the repetitions of entries have a part in it (`Greatest.unique`).  So a report
may be shuffled, an entry may come twice, and two reports put together mean the greater of what each of them means, origin
by origin.
-/
namespace GossipNode.StatusReport

variable {l l' : List StatusEntry} {o : Origin} {a b : Option SequenceId}

/-- The greatest of the numbers given for an origin, if any is given. -/
def Greatest (l : List StatusEntry) (o : Origin) : Option SequenceId → Prop
  | none => ∀ n, ⟨o, n⟩ ∉ l
  | some n => ⟨o, n⟩ ∈ l ∧ ∀ m, ⟨o, m⟩ ∈ l → m ≤ n

/-! ## Lists of entries -/

/-- **Lists with the same entries** have the same greatest numbers. -/
theorem Greatest.unique (same : ∀ n, ⟨o, n⟩ ∈ l ↔ ⟨o, n⟩ ∈ l') (h : Greatest l o a) (h' : Greatest l' o b) : a = b := by
  cases a with
  | none =>
    cases b with
    | none => rfl
    | some n => exact absurd ((same n).2 h'.1) (h n)
  | some n =>
    cases b with
    | none => exact absurd ((same n).1 h.1) (h' n)
    | some m => rw [UInt32.le_antisymm (h'.2 n ((same n).1 h.1)) (h.2 m ((same m).2 h'.1))]

theorem le_max {m n n' : SequenceId} (h : m ≤ n ∨ m ≤ n') : m ≤ max n n' := by
  simp only [UInt32.le_iff_toNat_le, toNat_max] at h ⊢
  omega

/-- **The greatest number of two lists** is the greater of theirs. -/
theorem Greatest.append (h : Greatest l o a) (h' : Greatest l' o b) : Greatest (l ++ l') o (Option.merge max a b) := by
  cases a with
  | none =>
    cases b with
    | none => exact fun n hn => (List.mem_append.1 hn).elim (h n) (h' n)
    | some n =>
      exact ⟨List.mem_append_right _ h'.1, fun m hm => (List.mem_append.1 hm).elim (fun hm => absurd hm (h m)) (h'.2 m)⟩
  | some n =>
    cases b with
    | none =>
      exact ⟨List.mem_append_left _ h.1, fun m hm => (List.mem_append.1 hm).elim (h.2 m) (fun hm => absurd hm (h' m))⟩
    | some n' =>
      refine ⟨?_, fun m hm => le_max ((List.mem_append.1 hm).imp (h.2 m) (h'.2 m))⟩
      rw [UInt32.max_def]
      split
      · exact List.mem_append_right _ h'.1
      · exact List.mem_append_left _ h.1

theorem greatest_singleton (e : StatusEntry) (o : Origin) :
    Greatest [e] o (if o = e.identifier then some e.nextId else none) := by
  split
  · rename_i same
    subst same
    exact ⟨List.mem_singleton.2 rfl, fun m hm => by rw [← List.mem_singleton.1 hm]; exact UInt32.le_refl m⟩
  · rename_i other
    exact fun n hn => other (by rw [← List.mem_singleton.1 hn])

/-! ## The vector of a report -/

theorem get?_raise (v : StatusVector) (e : StatusEntry) (o : Origin) :
    (raise v e).get? o = Option.merge max (v.get? o) (if o = e.identifier then some e.nextId else none) := by
  rw [raise, SortedMap.get?_alter]
  split
  · rename_i same
    rw [same]
    cases v.get? e.identifier <;> rfl
  · cases v.get? o <;> rfl

theorem greatest_foldl_raise {v : StatusVector} (h : Greatest l o (v.get? o)) :
    Greatest (l ++ l') o ((l'.foldl raise v).get? o) := by
  induction l' generalizing l v with
  | nil => rwa [List.append_nil]
  | cons e r ih =>
    have raised : Greatest (l ++ [e]) o ((raise v e).get? o) := by
      rw [get?_raise]
      exact h.append (greatest_singleton e o)
    rw [List.append_cons]
    exact ih raised

/-- **A report means its greatest numbers.** -/
theorem greatest_toVector (r : StatusReport) (o : Origin) : Greatest r.want o (r.toVector.get? o) := by
  have empty : Greatest [] o ((∅ : StatusVector).get? o) := fun n => List.not_mem_nil
  exact greatest_foldl_raise empty

variable {r r' : StatusReport}

theorem get?_toVector_eq_iff : r.toVector.get? o = a ↔ Greatest r.want o a :=
  ⟨fun h => h ▸ r.greatest_toVector o, fun h => (r.greatest_toVector o).unique (fun _ => Iff.rfl) h⟩

theorem contains_toVector_iff : r.toVector.contains o = true ↔ ∃ n, ⟨o, n⟩ ∈ r.want := by
  rw [← Bool.not_eq_false, SortedMap.contains_eq_false_iff, get?_toVector_eq_iff]
  exact not_forall_not

theorem toVector_congr (same : ∀ e, e ∈ r.want ↔ e ∈ r'.want) : r.toVector = r'.toVector :=
  SortedMap.ext_get? (fun o => (r.greatest_toVector o).unique (fun n => same ⟨o, n⟩) (r'.greatest_toVector o))

theorem get?_toVector_append (r r' : StatusReport) (o : Origin) :
    (toVector ⟨r.want ++ r'.want⟩).get? o = Option.merge max (r.toVector.get? o) (r'.toVector.get? o) :=
  get?_toVector_eq_iff.2 ((r.greatest_toVector o).append (r'.greatest_toVector o))

/-- **A report carries its vector.** -/
theorem toVector_ofVector (v : StatusVector) : (ofVector v).toVector = v := by
  have entry {o : Origin} {n : SequenceId} : ⟨o, n⟩ ∈ (ofVector v).want ↔ v.get? o = some n := by
    rw [← SortedMap.mem_entries, ofVector, List.mem_map]
    exact ⟨fun ⟨e, he, same⟩ => by cases same; exact he, fun he => ⟨(o, n), he, rfl⟩⟩
  refine SortedMap.ext_get? (fun o => get?_toVector_eq_iff.2 ?_)
  cases hv : v.get? o with
  | none => exact fun n hn => nomatch hv.symm.trans (entry.1 hn)
  | some n =>
    refine ⟨entry.2 hv, fun m hm => ?_⟩
    rw [Option.some.inj (hv.symm.trans (entry.1 hm))]
    exact UInt32.le_refl m

theorem pairwise_ofVector (v : StatusVector) :
    (ofVector v).want.Pairwise (fun a b => utf8 a.identifier.name < utf8 b.identifier.name) :=
  List.pairwise_map.2 (v.ascending.imp Origin.compare_eq_lt_iff.1)

/-- **A report means the pointwise maximum of its entries.**  Its vector has an entry for the origins that occur and for no
others, and the entry is the greatest number given for the origin, be it 0.  Reports with the same entries, in whatever
order and however often, have the same vector, and two reports put together have the pointwise maximum of their vectors.
The report of a vector is in strictly ascending order of the octets of the names, and its vector is that vector. -/
theorem reports_mean_maxima (r : StatusReport) :
    (∀ o, r.toVector.contains o = true ↔ ∃ n, ⟨o, n⟩ ∈ r.want) ∧
    (∀ o n, r.toVector.get? o = some n ↔ ⟨o, n⟩ ∈ r.want ∧ ∀ m, ⟨o, m⟩ ∈ r.want → m ≤ n) ∧
    (∀ r' : StatusReport, r.want.Perm r'.want → r.toVector = r'.toVector) ∧
    (∀ r' : StatusReport, (∀ e, e ∈ r.want ↔ e ∈ r'.want) → r.toVector = r'.toVector) ∧
    (∀ (r' : StatusReport) (o : Origin),
      (toVector ⟨r.want ++ r'.want⟩).get? o = Option.merge max (r.toVector.get? o) (r'.toVector.get? o)) ∧
    ∀ v : StatusVector, (ofVector v).toVector = v ∧
      (ofVector v).want.Pairwise (fun a b => utf8 a.identifier.name < utf8 b.identifier.name) :=
  ⟨fun _ => contains_toVector_iff, fun _ _ => get?_toVector_eq_iff, fun _ perm => toVector_congr (fun _ => perm.mem_iff),
    fun _ => toVector_congr, get?_toVector_append r, fun v => ⟨toVector_ofVector v, pairwise_ofVector v⟩⟩

/-- An origin comes three times, another one with 0 only; the second report has the same entries otherwise. -/
theorem reports_mean_maxima_repeated :
    let r : StatusReport := ⟨[⟨⟨"é"⟩, 4⟩, ⟨⟨"a"⟩, 0⟩, ⟨⟨"é"⟩, 9⟩, ⟨⟨"é"⟩, 2⟩]⟩
    let r' : StatusReport := ⟨[⟨⟨"a"⟩, 0⟩, ⟨⟨"é"⟩, 9⟩, ⟨⟨"é"⟩, 9⟩, ⟨⟨"é"⟩, 2⟩, ⟨⟨"a"⟩, 0⟩, ⟨⟨"é"⟩, 4⟩]⟩
    r.toVector.get? ⟨"é"⟩ = some 9 ∧ r.toVector.get? ⟨"a"⟩ = some 0 ∧ r.toVector = r'.toVector ∧
    r.toVector = toVector ⟨r.want.reverse⟩ := by
  intro r r'
  obtain ⟨-, greatest, shuffled, same, -⟩ := reports_mean_maxima r
  have belowE : ∀ m, ⟨⟨"é"⟩, m⟩ ∈ r.want → m ≤ 9 := by simp [r]
  have belowA : ∀ m, ⟨⟨"a"⟩, m⟩ ∈ r.want → m ≤ 0 := by simp [r]
  have entries : ∀ e, e ∈ r.want ↔ e ∈ r'.want := by simp [r, r']; tauto
  exact ⟨(greatest ⟨"é"⟩ 9).2 ⟨by decide, belowE⟩, (greatest ⟨"a"⟩ 0).2 ⟨by decide, belowA⟩, same r' entries,
    shuffled ⟨r.want.reverse⟩ (List.reverse_perm _).symm⟩

end GossipNode.StatusReport
