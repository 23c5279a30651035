import GossipNode.Proofs.Store.Logs
/-!
# Runs of a store

Offers and records made here, in any order and for any origins, starting from the empty store.  Whatever the order,
every log stays gap-free and in step with the status vector, an offer is new exactly when it carries the next number,
and nothing that is held is ever changed (`logs_stay_contiguous`).  What is asked of the callers is that a record made
here carries the origin and the number it is asked for, and that there are numbers left.
-/
namespace GossipNode
namespace Store

inductive Call where
  | accept (r : Record)
  | append (o : Origin) (build : SequenceId → Record)

/-- A record made here carries the origin and the number that it is asked for. -/
def Call.Honoured : Call → Prop
  | accept _ => True
  | append o build => ∀ id, (build id).origin = o ∧ (build id).id = id

def call (s : Store) : Call → Store
  | .accept r => (s.accept r).2
  | .append o build => (s.appendLocal o build).2

def run (cs : List Call) : Store := cs.foldl call empty

/-- **A gap-free log**: what a store shows of an origin whose records are numbered from 1 without gaps. -/
structure Contiguous (s : Store) (o : Origin) : Prop where
  next : (s.nextId o).toNat = (s.log o).length + 1
  ids : (s.log o).map (fun r => r.id.toNat) = List.range' 1 (s.log o).length
  origins : ∀ r ∈ s.log o, r.origin = o
  listed : s.status.contains o = true ↔ s.log o ≠ []
  get : ∀ id r, s.get? o id = some r ↔ r ∈ s.log o ∧ r.id = id

/-! ## One call -/

theorem log_prefix_call (s : Store) (c : Call) (o : Origin) : s.log o <+: (s.call c).log o := by
  cases c with
  | accept r => exact log_prefix_accept s r o
  | append _ build => exact log_prefix_push s _ o

theorem Sound.call {s : Store} (h : s.Sound) (fits : s.Fits) {c : Call} (hc : c.Honoured) : (s.call c).Sound := by
  cases c with
  | accept r => exact h.accept fits r
  | append o build =>
    obtain ⟨ho, hid⟩ := hc (s.nextId o)
    exact h.push fits (by rw [hid, ho])

theorem Sound.contiguous {s : Store} (h : s.Sound) (fits : s.Fits) (o : Origin) : s.Contiguous o where
  next := h.toNat_nextId fits o
  ids := (h.numbered o).map_id
  origins _ := (h.numbered o).origin_of_mem
  listed := h.contains_status_iff o
  get _ _ := h.get?_eq_some_iff

/-! ## Runs -/

theorem log_prefix_calls (cs : List Call) (s : Store) (o : Origin) : s.log o <+: (cs.foldl call s).log o := by
  induction cs generalizing s with
  | nil => exact List.prefix_rfl
  | cons c cs ih => exact (log_prefix_call s c o).trans (ih _)

theorem Sound.calls {cs : List Call} {s : Store} (h : s.Sound) (hc : ∀ c ∈ cs, c.Honoured)
    (fits : (cs.foldl Store.call s).Fits) : (cs.foldl Store.call s).Sound := by
  induction cs generalizing s with
  | nil => exact h
  | cons c cs ih =>
    have hs : s.Fits := Fits.of_longer (log_prefix_calls (c :: cs) s) fits
    exact ih (h.call hs (hc c List.mem_cons_self)) (fun c' hc' => hc c' (List.mem_cons_of_mem _ hc')) fits

/-- **Logs stay contiguous.**  After any calls that honour what is asked of them, every log is gap-free and in step
with the status vector; the next offer is new exactly when it carries the next number, and then its record goes to the
end of its log and nothing else changes; an offer that is not new leaves the store as it was; and no call changes or
removes a record that is held. -/
theorem logs_stay_contiguous (cs : List Call) (honoured : ∀ c ∈ cs, c.Honoured) (fits : (run cs).Fits) :
    (∀ o, (run cs).Contiguous o) ∧
    (∀ r, ((run cs).accept r).1 = .new ↔ r.id = (run cs).nextId r.origin) ∧
    (∀ r, ((run cs).accept r).1 = .new → ∀ o,
      ((run cs).accept r).2.log o = if o = r.origin then (run cs).log o ++ [r] else (run cs).log o) ∧
    (∀ r, ((run cs).accept r).1 ≠ .new → ((run cs).accept r).2 = run cs) ∧
    (∀ c o id r, (run cs).get? o id = some r → ((run cs).call c).get? o id = some r) := by
  have sound : (run cs).Sound := Sound.empty.calls honoured fits
  refine ⟨sound.contiguous fits, fun r => accept_new_iff, fun r hr o => ?_, fun r => accept_of_not_new,
    fun c o id r => get?_mono (log_prefix_call _ c o)⟩
  rw [accept_of_eq (accept_new_iff.1 hr)]
  exact log_push _ r o

/-- Two origins interleaved, one record skipped and one repeated. -/
theorem logs_stay_contiguous_interleaved :
    let cs : List Call :=
      [.accept (.rumor ⟨⟨"a"⟩, 1, "x"⟩), .append ⟨"b"⟩ (fun id => .rumor ⟨⟨"b"⟩, id, "y"⟩),
        .accept (.rumor ⟨⟨"a"⟩, 3, "z"⟩), .accept (.rumor ⟨⟨"a"⟩, 1, "x"⟩), .accept (.rumor ⟨⟨"a"⟩, 0, ""⟩)]
    (∀ c ∈ cs, c.Honoured) ∧ (run cs).Fits ∧ (∀ o, (run cs).Contiguous o) ∧
      (run cs).log ⟨"a"⟩ = [.rumor ⟨⟨"a"⟩, 1, "x"⟩] ∧ (run cs).log ⟨"b"⟩ = [.rumor ⟨⟨"b"⟩, 1, "y"⟩] := by
  intro cs
  have honoured : ∀ c ∈ cs, c.Honoured := by simp [cs, Call.Honoured, Record.origin, Record.id]
  have fits : (run cs).Fits := by decide +kernel
  exact ⟨honoured, fits, (logs_stay_contiguous cs honoured fits).1, by decide +kernel, by decide +kernel⟩

end Store
end GossipNode
