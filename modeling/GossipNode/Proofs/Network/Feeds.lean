import GossipNode.Proofs.Node.Feeding
/-!
# No block is misplaced

A block that comes into the feed of a topic is taken from it once, by the one driver of the topic: while it pauses, while it
collects for an earlier round, or while it collects for the round of the block.  By any of these ways it comes to the
collector of its round, unless that round is over (`blocks_reach_their_round`).

What is due to the collector of a round is read off what has been taken.  A driver that waits has in its stash, for its
round and any later one, just what is due then; a driver that collects has it for the later ones, and has offered what is
due for its own (`Action.Serves`).
-/
namespace GossipNode

/-- What is due to the collector of a round: the blocks of the round that have been taken before it was over, in order. -/
def due (r : UInt32) (taken : List (UInt32 × Block)) : List Block :=
  (taken.filter fun x => x.2.round = r ∧ x.1 ≤ r).map Prod.snd

/-- **Every collector that has been opened has been offered what is due to it**, one after another and nothing else. -/
structure Served (taken : List (UInt32 × Block)) (opened : List RoundCollector) (offers : List (RoundCollector × Block)) :
    Prop where
  rounds : (opened.map RoundCollector.round).Nodup
  offered : ∀ c ∈ opened, offers.filter (fun x => x.1.round = c.round) = c.offers (due c.round taken)
  known : ∀ x ∈ offers, ∃ c ∈ opened, c.round = x.1.round

/-- A driver that has not started its round yet. -/
structure Waits (taken : List (UInt32 × Block)) (opened : List RoundCollector) (round : UInt32) (stash : RoundStash) :
    Prop where
  past : ∀ x ∈ taken, x.1 ≤ round
  earlier : ∀ c ∈ opened, c.round < round
  kept : ∀ r, round ≤ r → stash.held.filter (fun b => b.round = r) = due r taken

/-- A driver that has. -/
structure Collects (taken : List (UInt32 × Block)) (opened : List RoundCollector) (stash : RoundStash) (c : RoundCollector) :
    Prop where
  past : ∀ x ∈ taken, x.1 ≤ c.round
  latest : ∀ c' ∈ opened, c'.round ≤ c.round
  kept : ∀ r, c.round < r → stash.held.filter (fun b => b.round = r) = due r taken
  opened : ∃ c₀ ∈ opened, c₀.round = c.round ∧ c = c₀.offerAll (due c.round taken)

/-- What a driver that does this has to do with what has been taken and opened before. -/
def Action.Serves (taken : List (UInt32 × Block)) (opened : List RoundCollector) : Action → Prop
  | .seekBallot _ round stash | .pause _ round stash _ => Waits taken opened round stash
  | .collect _ stash c | .decide _ stash c => Collects taken opened stash c
  | _ => True

section Serving

variable {taken : List (UInt32 × Block)} {opened : List RoundCollector} {offers : List (RoundCollector × Block)} {r : UInt32}

/-! ## What is due -/

theorem due_append (r : UInt32) (taken more : List (UInt32 × Block)) : due r (taken ++ more) = due r taken ++ due r more := by
  simp [due]

theorem due_taken (r round : UInt32) (bs : List Block) :
    due r (bs.map fun b => (round, b)) = if round ≤ r then bs.filter (fun b => b.round = r) else [] := by
  unfold due
  rw [List.filter_map, List.map_map]
  by_cases h : round ≤ r
  · simp [h, Function.comp_def]
  · simp [h, Function.comp_def]

theorem due_of_other {round : UInt32} {b : Block} (hr : r ≤ round) (other : b.round ≠ round) : due r [(round, b)] = [] := by
  unfold due
  by_cases same : b.round = r
  · have less : r < round := UInt32.lt_of_le_of_ne hr (fun he => other (same.trans he))
    simp [UInt32.not_le.2 less]
  · simp [same]

theorem round_of_mem_due {b : Block} (h : b ∈ due r taken) : b.round = r := by
  obtain ⟨x, hx, rfl⟩ := List.mem_map.1 h
  have mine := (List.mem_filter.1 hx).2
  simp only [decide_eq_true_eq] at mine
  exact mine.1

theorem RoundStash.held_foldl_add (s : RoundStash) (bs : List Block) : (bs.foldl add s).held = s.held ++ bs := by
  induction bs generalizing s with
  | nil => exact (List.append_nil _).symm
  | cons b bs ih =>
    rw [List.foldl_cons, ih]
    simp [add]

theorem RoundStash.take_fst (s : RoundStash) (round : UInt32) : (s.take round).1 = s.held.filter fun b => b.round = round := by
  simp [take, beq_eq_decide]

/-! ## One step of a driver -/

variable {n : Node} {t : String} {a a' : Action} {bs : List Block} {opens : Option RoundCollector} {c : RoundCollector}
  {made : List (RoundCollector × Block)} {round : UInt32} {stash : RoundStash} {b : Block}

/-- What is taken and due to nobody has to be offered to nobody. -/
theorem Served.take (h : Served taken opened offers) {more : List (UInt32 × Block)}
    (none : ∀ c ∈ opened, due c.round more = []) : Served (taken ++ more) opened offers := by
  refine ⟨h.rounds, fun c hc => ?_, h.known⟩
  rw [due_append, none c hc, List.append_nil]
  exact h.offered c hc

theorem Waits.propose (h : Waits taken opened round stash) (served : Served taken opened offers) (hc : c.round = round) :
    Served taken (opened ++ [c]) (offers ++ c.offers (stash.take round).1) ∧
      Collects taken (opened ++ [c]) (stash.take round).2 (c.offerAll (stash.take round).1) := by
  have kept : (stash.take round).1 = due round taken := by
    rw [RoundStash.take_fst]
    exact h.kept round (UInt32.le_refl _)
  rw [kept]
  subst hc
  have new : ∀ x ∈ c.offers (due c.round taken), x.1.round = c.round := fun x hx => (RoundCollector.of_mem_offers hx).1
  refine ⟨⟨?_, ?_, ?_⟩, ⟨?_, ?_, ?_, ?_⟩⟩
  · rw [List.map_append, List.map_singleton]
    refine List.Nodup.append served.rounds (List.nodup_singleton _) ?_
    simp only [List.disjoint_singleton, List.mem_map, not_exists, not_and]
    exact fun c' hc' => UInt32.ne_of_lt (h.earlier c' hc')
  · intro c' hc'
    rw [List.filter_append]
    rcases List.mem_append.1 hc' with hc' | hc'
    · have other : (c.offers (due c.round taken)).filter (fun x => x.1.round = c'.round) = [] := by
        refine List.filter_eq_nil_iff.2 (fun x hx => ?_)
        simpa [new x hx] using (UInt32.ne_of_lt (h.earlier c' hc')).symm
      rw [other, List.append_nil]
      exact served.offered c' hc'
    · obtain rfl := List.mem_singleton.1 hc'
      have before : offers.filter (fun x => x.1.round = c'.round) = [] := by
        refine List.filter_eq_nil_iff.2 (fun x hx => ?_)
        obtain ⟨c, hc, he⟩ := served.known x hx
        simpa [← he] using UInt32.ne_of_lt (h.earlier c hc)
      rw [before, List.nil_append]
      exact List.filter_eq_self.2 (fun x hx => by simpa using new x hx)
  · intro x hx
    rcases List.mem_append.1 hx with hx | hx
    · obtain ⟨c', hc', he⟩ := served.known x hx
      exact ⟨c', List.mem_append_left _ hc', he⟩
    · exact ⟨c, by simp, (new x hx).symm⟩
  · simpa using h.past
  · intro c' hc'
    rw [RoundCollector.round_offerAll]
    rcases List.mem_append.1 hc' with hc' | hc'
    · exact UInt32.le_of_lt (h.earlier c' hc')
    · rw [List.mem_singleton.1 hc']
      exact UInt32.le_refl _
  · intro r hr
    rw [RoundCollector.round_offerAll] at hr
    rw [← h.kept r (UInt32.le_of_lt hr)]
    simp only [RoundStash.take, List.filter_filter]
    refine List.filter_congr (fun b _ => ?_)
    by_cases hb : b.round = r
    · simp [hb, hr]
    · simp [hb]
  · exact ⟨c, by simp, by simp, by simp⟩

theorem Waits.keepAll (h : Waits taken opened round stash) (feed : List Block) :
    (∀ c ∈ opened, due c.round (feed.map fun b => (round, b)) = []) ∧
      Waits (taken ++ feed.map fun b => (round, b)) opened round
        ((feed.filter (fun b => round ≤ b.round)).foldl RoundStash.add stash) := by
  refine ⟨fun c hc => ?_, ⟨?_, h.earlier, fun r hr => ?_⟩⟩
  · rw [due_taken, if_neg (UInt32.not_le.2 (h.earlier c hc))]
  · simp only [List.mem_append, List.mem_map]
    rintro _ (hx | ⟨b, -, rfl⟩)
    · exact h.past _ hx
    · exact UInt32.le_refl _
  · rw [RoundStash.held_foldl_add, List.filter_append, h.kept r hr, due_append, due_taken, if_pos hr, List.filter_filter]
    refine congrArg _ (List.filter_congr (fun b _ => ?_))
    by_cases hb : b.round = r
    · simp [hb, hr]
    · simp [hb]

/-- A block of another round is due to no collector that has been opened; one of a later round goes into the stash. -/
theorem Collects.setAside (h : Collects taken opened stash c) (other : b.round ≠ c.round) :
    (∀ c' ∈ opened, due c'.round [(c.round, b)] = []) ∧
      Collects (taken ++ [(c.round, b)]) opened (if c.round < b.round then stash.add b else stash) c := by
  refine ⟨fun c' hc' => due_of_other (h.latest c' hc') other, ⟨?_, h.latest, fun r hr => ?_, ?_⟩⟩
  · simp only [List.mem_append, List.mem_singleton]
    rintro _ (hx | rfl)
    · exact h.past _ hx
    · exact UInt32.le_refl _
  · have due_b := due_taken r c.round [b]
    rw [if_pos (UInt32.le_of_lt hr), List.map_singleton] at due_b
    rw [due_append, due_b, ← h.kept r hr]
    split
    · simp [RoundStash.add]
    · rename_i earlier
      have ne : b.round ≠ r := fun he => earlier (he ▸ hr)
      simp [ne]
  · obtain ⟨c₀, hc₀, round, hc⟩ := h.opened
    refine ⟨c₀, hc₀, round, ?_⟩
    rw [due_append, due_of_other (UInt32.le_refl _) other, List.append_nil]
    exact hc

theorem Collects.offer (h : Collects taken opened stash c) (served : Served taken opened offers) (hb : b.round = c.round) :
    Served (taken ++ [(c.round, b)]) opened (offers ++ [(c, b)]) ∧
      Collects (taken ++ [(c.round, b)]) opened stash (c.offer b).2 := by
  obtain ⟨c₀, hc₀, round, hc⟩ := h.opened
  have due_b : ∀ r, due r [(c.round, b)] = if r = c.round then [b] else [] := by
    intro r
    by_cases hr : r = c.round
    · simp [due, hr, hb]
    · simp [due, hr, hb, Ne.symm hr]
  have later := (c.offer_fixed b).1
  refine ⟨⟨served.rounds, fun c' hc' => ?_, fun x hx => ?_⟩, ⟨?_, ?_, fun r hr => ?_, ?_⟩⟩
  · rw [List.filter_append, served.offered c' hc', due_append, due_b]
    by_cases same : c'.round = c.round
    · obtain rfl := List.inj_on_of_nodup_map served.rounds hc' hc₀ (same.trans round.symm)
      rw [if_pos same, RoundCollector.offers_concat, same, ← hc]
      simp
    · simp [same, Ne.symm same]
  · rcases List.mem_append.1 hx with hx | hx
    · exact served.known x hx
    · rw [List.mem_singleton.1 hx]
      exact ⟨c₀, hc₀, round⟩
  · rw [later]
    simp only [List.mem_append, List.mem_singleton]
    rintro _ (hx | rfl)
    · exact h.past _ hx
    · exact UInt32.le_refl _
  · rw [later]
    exact h.latest
  · rw [later] at hr
    rw [due_append, due_b, if_neg (UInt32.ne_of_lt hr).symm, List.append_nil]
    exact h.kept r hr
  · refine ⟨c₀, hc₀, by rw [later, round], ?_⟩
    rw [later, due_append, due_b, if_pos rfl, RoundCollector.offerAll_concat, ← hc]

theorem Collects.next (h : Collects taken opened stash c) (last : c.round.toNat + 1 < UInt32.size) :
    Waits taken opened (c.round + 1) stash := by
  have next := toNat_add_one last
  refine ⟨fun x hx => ?_, fun c' hc' => ?_, fun r hr => h.kept r ?_⟩
  · have := UInt32.le_iff_toNat_le.1 (h.past x hx)
    rw [UInt32.le_iff_toNat_le]
    omega
  · have := UInt32.le_iff_toNat_le.1 (h.latest c' hc')
    rw [UInt32.lt_iff_toNat_lt]
    omega
  · rw [UInt32.le_iff_toNat_le] at hr
    rw [UInt32.lt_iff_toNat_lt]
    omega

/-- **Whatever a driver does, it goes on to serve what is due.** -/
theorem Served.drives (h : Served taken opened offers) (serves : a.Serves taken opened)
    (drives : n.Drives t a bs opens made a') (last : (a.round?.getD 0).toNat + 1 < UInt32.size) :
    Served (taken ++ bs.map fun b => (a.round?.getD 0, b)) (opened ++ opens.toList) (offers ++ made) ∧
      a'.Serves (taken ++ bs.map fun b => (a.round?.getD 0, b)) (opened ++ opens.toList) := by
  cases drives with
  | propose opening =>
    have waits : Waits _ _ _ _ := serves
    simp only [List.map_nil, Option.toList_some, List.append_nil]
    exact waits.propose h (Node.round_opening? opening)
  | keepAll deadline =>
    have waits : Waits _ _ _ _ := serves
    obtain ⟨none, kept⟩ := waits.keepAll (n.topic t).feed
    simp only [Option.toList_none, List.append_nil]
    exact ⟨h.take none, kept⟩
  | resume | complete =>
    simp only [List.map_nil, Option.toList_none, List.append_nil]
    exact ⟨h, serves⟩
  | keep later =>
    have collects : Collects _ _ _ _ := serves
    obtain ⟨none, kept⟩ := collects.setAside (UInt32.ne_of_lt later).symm
    rw [if_pos later] at kept
    simp only [List.map_singleton, Option.toList_none, List.append_nil]
    exact ⟨h.take none, kept⟩
  | offer round =>
    have collects : Collects _ _ _ _ := serves
    simp only [List.map_singleton, Option.toList_none, List.append_nil]
    exact collects.offer h round
  | drop earlier =>
    have collects : Collects _ _ _ _ := serves
    obtain ⟨none, kept⟩ := collects.setAside (UInt32.ne_of_lt earlier)
    rw [if_neg (UInt32.lt_asymm earlier)] at kept
    simp only [List.map_singleton, Option.toList_none, List.append_nil]
    exact ⟨h.take none, kept⟩
  | next =>
    have collects : Collects _ _ _ _ := serves
    simp only [List.map_nil, Option.toList_none, List.append_nil]
    exact ⟨h, collects.next last⟩

end Serving

/-! ## The driver of a topic -/

namespace Node

variable {n : Node} {t : String} {a a' : Action}

theorem driven_of_follows (h : n.Follows a a') (ha : a'.driven? = some t) : a.driven? = some t ∨ a = .openTopic t := by
  cases h with
  | startDriver => exact .inr (congrArg _ (Option.some.inj ha))
  | collect | pause | resume | collectOn | decide | nextRound => exact .inl ha
  | stamped =>
    unfold afterStamp at ha
    split at ha
    · split at ha <;> cases ha
    · cases ha
    · cases ha
  | _ => cases ha

/-- What a step leaves to be done that drives a topic. -/
def drivenBy (t : String) (s : Step) : List Action := (s.next ++ s.started.flatten).filter fun a => a.driven? = some t

theorem drivenBy_eq_nil {s : Step} (none : ∀ a ∈ s.todo, a.driven? ≠ some t) : drivenBy t s = [] := by
  refine List.filter_eq_nil_iff.2 (fun a ha drives => none a ?_ (of_decide_eq_true drives))
  rcases List.mem_append.1 ha with ha | ha
  · exact List.mem_append_left _ ha
  · obtain ⟨script, hs, ha⟩ := List.mem_flatten.1 ha
    exact Step.mem_todo_of_started hs ha

/-- Opening a topic starts its driver, if the topic was not open. -/
theorem drivenBy_openTopic {s : Step} (next : s.next = []) (effects : s.effects = (n.openTopic t).effects) :
    drivenBy t s = [] ∨ n.topics.contains t = false ∧ drivenBy t s = [.seekBallot t 1 .empty] := by
  unfold drivenBy Step.started
  rw [next, effects]
  split
  · exact .inl rfl
  · unfold openTopic
    split
    · exact .inl rfl
    · rename_i closed
      refine .inr ⟨Bool.not_eq_true _ ▸ closed, ?_⟩
      simp [Effect.script?, Action.driven?]

theorem next_openTopic (n : Node) (t : String) : (n.openTopic t).next = [] := by
  unfold openTopic
  split <;> rfl

theorem drivenBy_of_perform {now : Nat} {step : Step} (h : step ∈ n.perform now a) (other : a.driven? ≠ some t) :
    drivenBy t step = [] ∨
      n.topics.contains t = false ∧ step.node.topics.contains t = true ∧ drivenBy t step = [.seekBallot t 1 .empty] := by
  by_cases opens : a = .openTopic t
  · subst opens
    obtain rfl := List.mem_singleton.1 h
    rcases drivenBy_openTopic (n.next_openTopic t) rfl with none | ⟨closed, one⟩
    · exact .inl none
    · exact .inr ⟨closed, congrArg Site.opened (n.site_openTopic t), one⟩
  · refine .inl (drivenBy_eq_nil (fun a' ha' drives => ?_))
    rcases driven_of_follows (follows_of_perform h ha') drives with drives | open_
    · exact other drives
    · exact opens open_

theorem drivenBy_answer (n : Node) (t : String) (q : Request) :
    drivenBy t (n.answer q) = [] ∨ n.topics.contains t = false ∧ (n.answer q).node.topics.contains t = true ∧
      drivenBy t (n.answer q) = [.seekBallot t 1 .empty] := by
  by_cases submits : ∃ b, q = .submitBallot t b
  · obtain ⟨b, rfl⟩ := submits
    rcases drivenBy_openTopic (s := n.answer (.submitBallot t b)) (n.next_openTopic t) rfl with none | ⟨closed, one⟩
    · exact .inl none
    · obtain ⟨ballots, site⟩ := n.site_submitBallot t b
      exact .inr ⟨closed, congrArg Site.opened site, one⟩
  · refine .inl (drivenBy_eq_nil (fun a ha drives => ?_))
    cases begins_of_answer ha with
    | @startDriver t' b =>
      obtain rfl := Option.some.inj drives
      exact submits ⟨b, rfl⟩
    | _ => cases drives

end Node

namespace Machine

variable {m m' : Machine} {e : Event} {more deeds : List Deed} {c : Config} {allowed : Machine → Event → Machine → Prop}
  {t : String}

/-- What the tasks have to do with driving a topic. -/
def drivers (m : Machine) (t : String) : List Action := m.actions.filter fun a => a.driven? = some t

/-- The blocks that have been taken from the feed of a topic, with the round that its driver was in. -/
def takenFrom (t : String) (deeds : List Deed) : List (UInt32 × Block) := deeds.flatMap (Deed.takes t)

def openedFor (t : String) (deeds : List Deed) : List RoundCollector := deeds.filterMap (Deed.opens t)

def offersFor (t : String) (deeds : List Deed) : List (RoundCollector × Block) := deeds.flatMap (Deed.offers t)

def fedTo (t : String) (deeds : List Deed) : List Block := deeds.filterMap (Deed.feeds t)

theorem takenFrom_append : takenFrom t (deeds ++ more) = takenFrom t deeds ++ takenFrom t more := List.flatMap_append

theorem openedFor_append : openedFor t (deeds ++ more) = openedFor t deeds ++ openedFor t more := List.filterMap_append

theorem offersFor_append : offersFor t (deeds ++ more) = offersFor t deeds ++ offersFor t more := List.flatMap_append

theorem fedTo_append : fedTo t (deeds ++ more) = fedTo t deeds ++ fedTo t more := List.filterMap_append

@[simp] theorem takenFrom_singleton (d : Deed) : takenFrom t [d] = d.takes t := List.flatMap_singleton _ _

@[simp] theorem openedFor_singleton (d : Deed) : openedFor t [d] = (d.opens t).toList := by
  cases h : d.opens t <;> simp [openedFor, h]

@[simp] theorem offersFor_singleton (d : Deed) : offersFor t [d] = d.offers t := List.flatMap_singleton _ _

@[simp] theorem fedTo_singleton (d : Deed) : fedTo t [d] = (d.feeds t).toList := by
  cases h : d.feeds t <;> simp [fedTo, h]

theorem Move.contains (h : m.Move e more m') (opened : m.node.topics.contains t = true) :
    m'.node.topics.contains t = true := by
  have change := h.topics
  generalize htopics : m'.node.topics = topics at change
  cases change with
  | same => exact opened
  | acted | submitted => rw [← htopics, Node.contains_of_insert htopics]; exact .inr opened

theorem Move.closed_before (h : m.Move e more m') (closed : m'.node.topics.contains t = false) :
    m.node.topics.contains t = false := by
  refine Bool.not_eq_true _ ▸ fun opened => ?_
  rw [h.contains opened] at closed
  cases closed

theorem Move.feed_of_idle (h : m.Move e [] m') : (m'.node.topic t).feed = (m.node.topic t).feed := by
  have change := h.topics
  generalize htopics : m'.node.topics = topics at change
  cases change with
  | same => rw [Node.topic_of_topics htopics]
  | submitted =>
    rw [Node.topic_of_insert htopics]
    split
    · rename_i here
      rw [here]
    · rfl

/-- **Without a deed of its driver** a topic keeps the driver that it has, or loses it, or is opened and may get one. -/
theorem Move.drivers (h : m.Move e more m') (other : ∀ d ∈ more, d.action.driven? ≠ some t) :
    (m'.drivers t).Subperm (m.drivers t) ∨
      m.node.topics.contains t = false ∧ m'.node.topics.contains t = true ∧
        (m'.drivers t).Perm (.seekBallot t 1 .empty :: m.drivers t) := by
  cases h with
  | @acted now a step script others _ perform taken node left =>
    have notDriver : a.driven? ≠ some t := other _ List.mem_cons_self
    obtain ⟨before, after⟩ := perm_acted taken left
    have before := before.filter fun a => a.driven? = some t
    rw [List.filter_cons_of_neg (by simpa using notDriver)] at before
    have after : (m'.drivers t).Perm (Node.drivenBy t step ++ m.drivers t) := by
      have all := after.filter fun a => a.driven? = some t
      rw [List.filter_append] at all
      exact all.trans (List.Perm.append_left _ before.symm)
    rw [node]
    rcases Node.drivenBy_of_perform perform notDriver with none | ⟨closed, opened, one⟩
    · rw [none] at after
      exact .inl after.subperm
    · rw [one] at after
      exact .inr ⟨closed, opened, after⟩
  | @answered q _ node left =>
    have after : (m'.drivers t).Perm (Node.drivenBy t (m.node.answer q) ++ m.drivers t) := by
      have all := left.flatten.filter fun a => a.driven? = some t
      rwa [List.flatten_append, List.flatten_cons, List.filter_append] at all
    rw [node]
    rcases m.node.drivenBy_answer t q with none | ⟨closed, opened, one⟩
    · rw [none] at after
      exact .inl after.subperm
    · rw [one] at after
      exact .inr ⟨closed, opened, after⟩
  | arrived | closed => exact .inl (List.Subperm.refl _)
  | stopped sub => exact .inl ((sub.flatten).filter _).subperm

theorem Move.eq_singleton (h : m.Move e more m') {d : Deed} (hd : d ∈ more) : more = [d] := by
  cases h with
  | acted => rw [List.mem_singleton.1 hd]
  | _ => cases hd

/-- **What is no deed of the driver** may feed the topic, and takes and offers nothing. -/
theorem Move.undriven (h : m.Move e more m') (other : ∀ d ∈ more, d.action.driven? ≠ some t) :
    takenFrom t more = [] ∧ openedFor t more = [] ∧ offersFor t more = [] ∧
      (m'.node.topic t).feed = (m.node.topic t).feed ++ fedTo t more := by
  cases more with
  | nil => exact ⟨rfl, rfl, rfl, h.feed_of_idle.trans (List.append_nil _).symm⟩
  | cons d more =>
    cases h with
    | @acted now a step _ _ _ perform taken node left =>
      have notDriver : a.driven? ≠ some t := other _ List.mem_cons_self
      obtain ⟨opens, offers⟩ := Node.nothing_of_other m.node step notDriver
      have feed := Node.feed_of_other perform notDriver
      have takes : Deed.takes t ⟨m.node, a, step⟩ = [] := by simp [Deed.takes, feed]
      refine ⟨by simp [takes], by simp [opens], by simp [offers], ?_⟩
      rw [node, feed, fedTo_singleton]

/-! ## Every run -/

/-- **What is known of the feed of a topic** and of the driver that it may have. -/
structure Supplied (t : String) (deeds : List Deed) (m : Machine) : Prop where
  closed : m.node.topics.contains t = false → m.drivers t = [] ∧ takenFrom t deeds = [] ∧ openedFor t deeds = []
  one : (m.drivers t).length ≤ 1
  serves : ∀ a ∈ m.drivers t, a.Serves (takenFrom t deeds) (openedFor t deeds)
  served : Served (takenFrom t deeds) (openedFor t deeds) (offersFor t deeds)
  feed : fedTo t deeds = (takenFrom t deeds).map Prod.snd ++ (m.node.topic t).feed

/-- The driver of the topic is in no round that is the last. -/
def BelowLast (t : String) (deeds : List Deed) : Prop :=
  ∀ d ∈ deeds, d.action.driven? = some t → (d.action.round?.getD 0).toNat + 1 < UInt32.size

instance (t : String) (deeds : List Deed) : Decidable (BelowLast t deeds) :=
  inferInstanceAs (Decidable (∀ d ∈ deeds, d.action.driven? = some t → (d.action.round?.getD 0).toNat + 1 < UInt32.size))

theorem Fresh.supplied (fresh : m.Fresh c) (t : String) : Supplied t [] m := by
  have none : m.drivers t = [] := by
    refine List.filter_eq_nil_iff.2 (fun a ha drives => ?_)
    have standing := fresh.standing (mem_actions.1 ha)
    have drives := of_decide_eq_true drives
    cases a with
    | seekBallot | pause | collect | decide => cases standing
    | _ => cases drives
  have topic : m.node.topic t = Topic.new t := by
    obtain ⟨_, _, _, _, hnew, -⟩ := fresh
    exact congrArg Node.Site.topic (Node.site_new hnew t)
  refine ⟨fun _ => ⟨none, rfl, rfl⟩, by simp [none], by simp [none], ⟨List.nodup_nil, ?_, ?_⟩, by rw [topic]; rfl⟩
  · exact fun _ h => nomatch h
  · exact fun _ h => nomatch h

theorem Supplied.driven {d : Deed} (h : Supplied t deeds m) (move : m.Move e [d] m') (drives : d.action.driven? = some t)
    (below : (d.action.round?.getD 0).toNat + 1 < UInt32.size) : Supplied t (deeds ++ [d]) m' := by
  cases move with
  | @acted now a step script others _ perform taken node left =>
    obtain ⟨bs, a', feed, next, does⟩ := Node.drives_of_perform perform drives
    obtain ⟨before, after⟩ := perm_acted taken left
    have before : (m.drivers t).Perm _ := before.filter _
    rw [List.filter_cons_of_pos (by simpa using drives)] at before
    have alone : (script ++ others.flatten).filter (fun a => a.driven? = some t) = [] := by
      have one := h.one
      rw [before.length_eq, List.length_cons] at one
      exact List.eq_nil_of_length_eq_zero (by omega)
    have drivers : m'.drivers t = [a'] := by
      have all : (m'.drivers t).Perm _ := after.filter _
      rw [List.filter_append, alone, next, Node.started_of_driven perform drives] at all
      simpa [does.driven] using all
    have mine : a ∈ m.drivers t := before.mem_iff.2 List.mem_cons_self
    obtain ⟨served, serves⟩ := h.served.drives (h.serves a mine) does below
    rw [← Node.takes_of_feed (a := a) feed] at served serves
    have feeds : Deed.feeds t ⟨m.node, a, step⟩ = none := by
      cases a with
      | feed => cases drives
      | _ => rfl
    refine ⟨fun closed => ?_, by simp [drivers], ?_, ?_, ?_⟩
    · have wasClosed := Move.closed_before (.acted perform taken node left) closed
      rw [(h.closed wasClosed).1] at mine
      cases mine
    · rw [drivers, takenFrom_append, openedFor_append]
      simpa using serves
    · rw [takenFrom_append, openedFor_append, offersFor_append]
      simpa using served
    · rw [fedTo_append, takenFrom_append, fedTo_singleton, takenFrom_singleton, feeds, node, h.feed, feed,
        Node.takes_of_feed feed]
      simp [Function.comp_def]

theorem Supplied.undriven (h : Supplied t deeds m) (move : m.Move e more m') (other : ∀ d ∈ more, d.action.driven? ≠ some t) :
    Supplied t (deeds ++ more) m' := by
  obtain ⟨taken, opened, offers, feed⟩ := move.undriven other
  have htaken : takenFrom t (deeds ++ more) = takenFrom t deeds := by rw [takenFrom_append, taken, List.append_nil]
  have hopened : openedFor t (deeds ++ more) = openedFor t deeds := by rw [openedFor_append, opened, List.append_nil]
  have hoffers : offersFor t (deeds ++ more) = offersFor t deeds := by rw [offersFor_append, offers, List.append_nil]
  have served : Served (takenFrom t (deeds ++ more)) (openedFor t (deeds ++ more)) (offersFor t (deeds ++ more)) := by
    rw [htaken, hopened, hoffers]
    exact h.served
  have fed : fedTo t (deeds ++ more) = (takenFrom t (deeds ++ more)).map Prod.snd ++ (m'.node.topic t).feed := by
    rw [fedTo_append, htaken, feed, h.feed, List.append_assoc]
  rcases move.drivers other with fewer | ⟨wasClosed, nowOpen, one⟩
  · refine ⟨fun closed => ?_, fewer.length_le.trans h.one, fun a ha => ?_, served, fed⟩
    · obtain ⟨none, nothing⟩ := h.closed (move.closed_before closed)
      rw [none] at fewer
      rw [htaken, hopened]
      exact ⟨List.subperm_nil.1 fewer, nothing⟩
    · rw [htaken, hopened]
      exact h.serves a (fewer.subset ha)
  · -- the driver is new, and nothing has been taken that it should have kept
    obtain ⟨none, nothing, noCollector⟩ := h.closed wasClosed
    rw [none, List.perm_singleton] at one
    refine ⟨fun closed => ?_, by simp [one], fun a ha => ?_, served, fed⟩
    · rw [nowOpen] at closed
      cases closed
    · rw [one] at ha
      rw [List.mem_singleton.1 ha, htaken, hopened, nothing, noCollector]
      exact ⟨by simp, by simp, fun r _ => rfl⟩

theorem supplied_of_history (h : History allowed c deeds m) (t : String) (below : BelowLast t deeds) : Supplied t deeds m := by
  refine h.induct (P := fun deeds m => BelowLast t deeds → Supplied t deeds m) (fun m fresh _ => fresh.supplied t) ?_ below
  intro deeds more m m' e _ ih move _ _ below
  have before := ih (fun d hd => below d (List.mem_append_left _ hd))
  by_cases driven : ∃ d ∈ more, d.action.driven? = some t
  · obtain ⟨d, hd, drives⟩ := driven
    obtain rfl := move.eq_singleton hd
    exact before.driven move drives (below d (by simp) drives)
  · exact before.undriven move (fun d hd drives => driven ⟨d, hd, drives⟩)

/-- **Every block reaches its round.**  Take any run of a node in which the driver of a topic is in no round that is the
last one of a word.  A collector that has been opened has been offered, in order and once each, the blocks of its round that
were taken while the driver was in that round or an earlier one, and no others; for no round has there been a second, and
no offer was made but to one of them, or was of another round.  What a collector has come to is the outcome of these offers.
Nothing is lost before: all blocks that came into the feed have been taken, in order, but for those that are still there. -/
theorem blocks_reach_their_round (h : History allowed c deeds m) (t : String) (below : BelowLast t deeds) :
    (∀ x ∈ openedFor t deeds, (offersFor t deeds).filter (fun o => o.1.round = x.round) =
      x.offers (due x.round (takenFrom t deeds))) ∧
    ((openedFor t deeds).map RoundCollector.round).Nodup ∧
    (∀ o ∈ offersFor t deeds, (o.1.offer o.2).1 ≠ .wrongRound ∧ ∃ x ∈ openedFor t deeds, x.round = o.1.round) ∧
    (∀ stash x, m.Todo (.collect t stash x) ∨ m.Todo (.decide t stash x) →
      ∃ new ∈ openedFor t deeds, new.round = x.round ∧ x = new.offerAll (due x.round (takenFrom t deeds))) ∧
    fedTo t deeds = (takenFrom t deeds).map Prod.snd ++ (m.node.topic t).feed := by
  have supplied := supplied_of_history h t below
  have served := supplied.served
  refine ⟨served.offered, served.rounds, fun o ho => ?_, fun stash x todo => ?_, supplied.feed⟩
  · obtain ⟨x, hx, round⟩ := served.known o ho
    refine ⟨fun wrong => RoundCollector.offer_fst_eq_wrongRound_iff.1 wrong ?_, x, hx, round⟩
    have mine : o ∈ (offersFor t deeds).filter fun o => o.1.round = x.round :=
      List.mem_filter.2 ⟨ho, decide_eq_true round.symm⟩
    rw [served.offered x hx] at mine
    rw [round_of_mem_due (RoundCollector.of_mem_offers mine).2, round]
  · have collects : Collects (takenFrom t deeds) (openedFor t deeds) stash x := by
      rcases todo with todo | todo
      · exact supplied.serves _ (List.mem_filter.2 ⟨mem_actions.2 todo, decide_eq_true rfl⟩)
      · exact supplied.serves _ (List.mem_filter.2 ⟨mem_actions.2 todo, decide_eq_true rfl⟩)
    exact collects.opened

/-- Six blocks are taken.  In the first round the driver keeps one for the next round while it pauses, and one of a much
later round while it collects; one comes before its round and one within; one is of a round that never was, and one of a
round that is over. -/
theorem blocks_reach_their_round_late_and_early :
    let config : Config := { name := "a", peers := [], antiEntropyPeriod := 0, peerCount := 3 }
    let block (origin : String) (round : UInt32) : Block :=
      ⟨genesisHash, genesisHash, 0, round, ⟨origin⟩, "council", none⟩
    ∃ deeds m, History KeepsCounting config deeds m ∧ BelowLast "council" deeds ∧
      takenFrom "council" deeds = [(1, block "b" 1), (1, block "c" 0), (1, block "b" 2), (1, block "c" 3), (1, block "c" 1),
        (2, block "c" 1)] ∧
      ((offersFor "council" deeds).filter (fun o => o.1.round = 1)).map Prod.snd = [block "b" 1, block "c" 1] ∧
      ((offersFor "council" deeds).filter (fun o => o.1.round = 2)).map Prod.snd = [block "b" 2] := by
  intro config block
  let arrives (task : Nat) (origin : String) (id : SequenceId) (round : UInt32) : List (Nat × Event) :=
    [(0, .arrive ⟨origin⟩ (.block ⟨⟨origin⟩, id, block origin round, ⟨Word256.zero, []⟩⟩)), (1, .act 0)] ++
      List.replicate 5 (task, .act 0)
  let submits (voter : String) : Nat × Event := (0, .call (.submitBallot "council" ⟨voter, "yes", voter⟩))
  let moves : List (Nat × Event) :=
    arrives 3 "b" 1 1 ++ arrives 5 "c" 1 0 ++ arrives 6 "b" 2 2 ++ [(4, .act 0), submits "ann", (4, .act 50), (4, .act 50)] ++
      arrives 8 "c" 2 3 ++ arrives 9 "c" 3 1 ++ List.replicate 5 (4, .act 50) ++
      arrives 10 "c" 4 1 ++ [(4, .act 100), submits "bob", (4, .act 200), (4, .act 200)]
  have played : ((start? config ⟨"A"⟩ .acceptAll).bind (fun m => playDeeds? KeepsCounting moves ([], m))).map
      (fun x => (decide (BelowLast "council" x.1), takenFrom "council" x.1, (openedFor "council" x.1).map RoundCollector.round)) =
      some (true, [(1, block "b" 1), (1, block "c" 0), (1, block "b" 2), (1, block "c" 3), (1, block "c" 1),
        (2, block "c" 1)], [1, 2]) := by decide +kernel
  obtain ⟨deeds, m, history, hstate⟩ := history_of_start? played
  simp only [Prod.mk.injEq, decide_eq_true_eq] at hstate
  obtain ⟨below, taken, rounds⟩ := hstate
  obtain ⟨served, -⟩ := blocks_reach_their_round history "council" below
  have offered : ∀ r ∈ (openedFor "council" deeds).map RoundCollector.round,
      ((offersFor "council" deeds).filter (fun o => o.1.round = r)).map Prod.snd = due r (takenFrom "council" deeds) := by
    intro r hr
    obtain ⟨x, hx, rfl⟩ := List.mem_map.1 hr
    rw [served x hx, RoundCollector.map_snd_offers]
  rw [rounds, taken] at offered
  exact ⟨deeds, m, history, below, taken, offered 1 (by decide), offered 2 (by decide)⟩

end Machine
end GossipNode
