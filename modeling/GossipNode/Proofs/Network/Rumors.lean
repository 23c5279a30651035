import GossipNode.Proofs.Network.Histories
import GossipNode.Proofs.Node.Telling
/-!
# Rumors are told once and in order

A node takes records from its peers and makes records itself, and both go into one log for each origin.  Those that have
been taken, in the order in which they were, are of every origin just those of its log that were not made here
(`taken_in_order`).  A rumor is told when it is taken, so what observers have been told of an origin is read off its log:
each rumor with a text that came from a peer, once, and in the order of the numbers (`rumors_delivered`).
-/
namespace GossipNode

/-- No record of a log has the next number. -/
theorem Store.Sound.not_mem_of_next {s : Store} (h : s.Sound) (fits : s.Fits) {r : Record}
    (next : r.id = s.nextId r.origin) (o : Origin) : r ∉ s.log o := by
  intro hr
  obtain rfl := (h.numbered o).origin_of_mem hr
  have below := (h.numbered r.origin).id_le hr
  rw [next, h.toNat_nextId fits] at below
  omega

theorem Store.Numbered.ascending {o : Origin} {l : List Record} (h : Numbered o l) :
    l.Pairwise (fun r r' => r.id.toNat < r'.id.toNat) := by
  rw [← List.pairwise_map (f := fun r : Record => r.id.toNat), h.map_id]
  exact List.pairwise_lt_range'

def Deed.taken? (d : Deed) : Option Record := d.node.taken? d.action

namespace Machine

variable {m m' : Machine} {e : Event} {c : Config} {deeds more : List Deed} {r : Record}
  {allowed : Machine → Event → Machine → Prop}

/-- The records that have been taken from peers, in order. -/
def takings (deeds : List Deed) : List Record := deeds.filterMap Deed.taken?

theorem takings_append (deeds more : List Deed) : takings (deeds ++ more) = takings deeds ++ takings more :=
  List.filterMap_append

/-! ## One move -/

/-- **What comes into the store in one move**, and what of it has been taken from a peer. -/
inductive Intake (n : Node) : List Record → Store → Prop where
  | nothing : Intake n [] n.store
  | taken {r : Record} (next : r.id = n.store.nextId r.origin) : Intake n [r] (n.store.push r)
  | made {r : Record} (own : r.origin = n.name) (next : r.id = n.store.nextId r.origin) : Intake n [] (n.store.push r)

theorem Move.intake (h : m.Move e more m') : Intake m.node (takings more) m'.node.store := by
  cases more with
  | nil =>
    have idle := h.idle
    change Intake m.node [] m'.node.core.store
    generalize m'.node.core = core at idle ⊢
    cases idle with
    | heard => exact .nothing
    | posted own next => exact .made own next
  | cons d more =>
    cases h with
    | @acted now a step _ _ _ perform taken node left =>
      rw [node]
      change Intake m.node ((m.node.taken? a).toList) step.node.store
      cases ht : m.node.taken? a with
      | some r =>
        obtain ⟨next, store⟩ := Node.store_of_taken perform ht
        rw [store]
        exact .taken next
      | none =>
        rcases Node.store_of_not_taken perform ht with store | ⟨r, own, next, store⟩
        · rw [store]
          exact .nothing
        · rw [store]
          exact .made own next

/-- **A move tells of what it takes.** -/
theorem Move.rumors (h : m.Move e more m') :
    m'.node.rumors = m.node.rumors ++ (takings more).filterMap Record.told? := by
  cases h with
  | @acted now a step _ _ _ perform taken node left =>
    rw [node, Node.rumors_of_perform perform]
    change _ = _ ++ ((m.node.taken? a).toList).filterMap Record.told?
    cases m.node.taken? a with
    | none => rfl
    | some r => cases h : r.told? <;> simp [h]
  | @answered q _ node left => rw [node, Node.rumors_answer]; exact (List.append_nil _).symm
  | arrived arrive => exact (Node.rumors_arrive arrive).trans (List.append_nil _).symm
  | closed => exact (List.append_nil _).symm
  | stopped sub => exact m.node.rumors_shutdown.trans (List.append_nil _).symm

/-! ## What has been taken -/

/-- The records of each origin that have been taken are those of its log that have, and no others are in the logs of
other origins than the own. -/
structure InOrder (name : Origin) (taken : List Record) (s : Store) : Prop where
  log (o : Origin) : taken.filter (fun r => r.origin = o) = (s.log o).filter (fun r => r ∈ taken)
  foreign {o : Origin} (other : o ≠ name) : ∀ r ∈ s.log o, r ∈ taken

theorem InOrder.mem_log {name : Origin} {taken : List Record} {s : Store} (h : InOrder name taken s) (hr : r ∈ taken) :
    r ∈ s.log r.origin := by
  have held : r ∈ taken.filter (fun x => x.origin = r.origin) := List.mem_filter.2 ⟨hr, decide_eq_true rfl⟩
  rw [h.log] at held
  exact (List.mem_filter.1 held).1

/-- **One intake keeps the order**, as what comes in stands in no log yet. -/
theorem InOrder.intake {n : Node} {taken new : List Record} {s : Store} (h : InOrder n.name taken n.store)
    (sound : n.store.Sound) (fits : n.store.Fits) (intake : Intake n new s) : InOrder n.name (taken ++ new) s := by
  cases intake with
  | nothing => rwa [List.append_nil]
  | @taken r next =>
    -- what has just been taken stands in no log, so of what is held nothing else counts as taken now
    have fresh := sound.not_mem_of_next fits next
    have before (o : Origin) :
        (n.store.log o).filter (fun x => x ∈ taken ++ [r]) = (n.store.log o).filter (fun x => x ∈ taken) := by
      refine List.filter_congr (fun x hx => ?_)
      have other : x ≠ r := fun he => fresh o (he ▸ hx)
      simp [other]
    refine ⟨fun o => ?_, fun other x hx => ?_⟩
    · rw [List.filter_append, h.log, Store.log_push]
      split
      · rename_i ho
        rw [List.filter_append, before]
        simp [ho]
      · rename_i ho
        rw [before]
        simp [Ne.symm ho]
    · rcases Store.mem_or_eq_of_mem_log_push hx with hx | ⟨rfl, -⟩
      · exact List.mem_append_left _ (h.foreign other x hx)
      · exact List.mem_append_right _ List.mem_cons_self
  | @made r own next =>
    have fresh : r ∉ taken := fun hr => sound.not_mem_of_next fits next _ (h.mem_log hr)
    rw [List.append_nil]
    refine ⟨fun o => ?_, fun other x hx => ?_⟩
    · rw [h.log, Store.log_push]
      split
      · rw [List.filter_append]
        simp [fresh]
      · rfl
    · rcases Store.mem_or_eq_of_mem_log_push hx with hx | ⟨rfl, ho⟩
      · exact h.foreign other x hx
      · exact absurd (ho.trans own) other

theorem taken_in_order (h : History allowed c deeds m) : InOrder c.origin (takings deeds) m.node.store := by
  refine h.induct (P := fun deeds m => InOrder c.origin (takings deeds) m.node.store) ?_ ?_
  · rintro m ⟨_, _, _, _, hnew, -⟩
    have store : m.node.store = .empty := congrArg Node.Core.store (Node.core_new hnew)
    rw [store]
    exact ⟨fun _ => rfl, fun _ => nofun⟩
  · intro deeds more m m' e before ih move _ _
    rw [← before.run.kept.1] at ih ⊢
    rw [takings_append]
    exact ih.intake before.run.sound before.run.fits move.intake

theorem rumors_of_history (h : History allowed c deeds m) :
    m.node.rumors = (takings deeds).filterMap Record.told? := by
  refine h.induct (P := fun deeds m => m.node.rumors = (takings deeds).filterMap Record.told?) ?_ ?_
  · rintro m ⟨_, _, _, _, hnew, -⟩
    exact Node.rumors_new hnew
  · intro deeds more m m' e _ ih move _ _
    rw [move.rumors, ih, takings_append, List.filterMap_append]

theorem filter_told (l : List Record) (o : Origin) :
    (l.filterMap Record.told?).filter (fun x => x.origin = o) =
      (l.filter (fun r => r.origin = o)).filterMap Record.told? := by
  rw [List.filter_filterMap, List.filterMap_filter]
  refine List.filterMap_congr (fun r _ => ?_)
  cases ht : r.told? with
  | none => simp
  | some x => simp [Option.filter, (Record.origin_of_told? ht).1]

/-! ## What observers are told -/

/-- **Rumors are delivered once and in order.**  What observers have been told of an origin is, in the order of its log,
every rumor with a text that was taken from a peer; of another origin than the own that is every rumor with a text in its
log, and the numbers ascend.  Each action has told of the record that it took, if that is a rumor with a text, and of
nothing else; a request tells of none. -/
theorem rumors_delivered (h : History allowed c deeds m) (o : Origin) :
    m.node.rumors.filter (fun x => x.origin = o) =
      ((m.node.store.log o).filter (fun r => r ∈ takings deeds)).filterMap Record.told? ∧
    (o ≠ c.origin →
      m.node.rumors.filter (fun x => x.origin = o) = (m.node.store.log o).filterMap Record.told?) ∧
    (m.node.rumors.filter (fun x => x.origin = o)).Pairwise (fun x y => x.id.toNat < y.id.toNat) ∧
    (∀ d ∈ deeds, d.step.node.rumors = d.node.rumors ++ (d.taken?.bind Record.told?).toList) ∧
    ∀ q, (m.node.answer q).node.rumors = m.node.rumors := by
  have order := taken_in_order h
  have told : m.node.rumors.filter (fun x => x.origin = o) =
      ((m.node.store.log o).filter (fun r => r ∈ takings deeds)).filterMap Record.told? := by
    rw [rumors_of_history h, filter_told, order.log]
  refine ⟨told, fun other => ?_, ?_, fun d hd => ?_, m.node.rumors_answer⟩
  · rw [told, List.filter_eq_self.2 (fun r hr => decide_eq_true (order.foreign other r hr))]
  · rw [told]
    refine ((h.run.sound.numbered o).ascending.filter _).filterMap _ (fun r r' hlt x hx y hy => ?_)
    rw [(Record.origin_of_told? hx).2, (Record.origin_of_told? hy).2]
    exact hlt
  · obtain ⟨now, perform⟩ := h.performed hd
    exact Node.rumors_of_perform perform

/-- Of six offers of a peer, with a gap, a repetition and a heartbeat among them, two are told of; what the node posts
itself is not. -/
theorem rumors_delivered_past_gap :
    let config : Config := { name := "a", peers := [], antiEntropyPeriod := 0 }
    ∃ deeds m, History KeepsCounting config deeds m ∧
      m.node.rumors.filter (fun x => x.origin = ⟨"b"⟩) = [⟨⟨"b"⟩, 1, "one"⟩, ⟨⟨"b"⟩, 3, "three"⟩] ∧
      (m.node.store.log ⟨"b"⟩).filterMap Record.told? = [⟨⟨"b"⟩, 1, "one"⟩, ⟨⟨"b"⟩, 3, "three"⟩] ∧
      (m.node.store.log ⟨"a"⟩).filterMap Record.told? = [⟨⟨"a"⟩, 1, "own"⟩] ∧
      m.node.rumors.filter (fun x => x.origin = ⟨"a"⟩) = [] := by
  intro config
  let arrives (task : Nat) (id : SequenceId) (text : String) : List (Nat × Event) :=
    [(0, .arrive ⟨"B"⟩ (.rumor ⟨⟨"b"⟩, id, text⟩)), (1, .act 0)] ++ List.replicate 3 (task, .act 0)
  let moves : List (Nat × Event) :=
    [(0, .call (.postRumor "own"))] ++ arrives 5 3 "three" ++ arrives 6 1 "one" ++ arrives 7 1 "one" ++
      arrives 8 2 "" ++ arrives 9 3 "three" ++ arrives 10 2 "two"
  have played : ((start? config ⟨"A"⟩ .acceptAll).bind (fun m => playDeeds? KeepsCounting moves ([], m))).map
      (fun x => ((x.2.node.store.log ⟨"b"⟩).filterMap Record.told?, (x.2.node.store.log ⟨"a"⟩).filterMap Record.told?,
        (x.2.node.store.log ⟨"a"⟩).filter (fun r => r ∈ takings x.1))) =
      some ([⟨⟨"b"⟩, 1, "one"⟩, ⟨⟨"b"⟩, 3, "three"⟩], [⟨⟨"a"⟩, 1, "own"⟩], []) := by decide +kernel
  obtain ⟨deeds, m, history, hstate⟩ := history_of_start? played
  simp only [Prod.mk.injEq] at hstate
  obtain ⟨peer, own, none⟩ := hstate
  refine ⟨deeds, m, history, ?_, peer, own, ?_⟩
  · rw [(rumors_delivered history ⟨"b"⟩).2.1 (by decide), peer]
  · rw [(rumors_delivered history ⟨"a"⟩).1, none]
    rfl

end Machine
end GossipNode
