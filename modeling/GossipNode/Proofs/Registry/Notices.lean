import Mathlib.Data.Set.Card
import GossipNode.Proofs.Registry.Reports
/-!
# Who is notified

A run of a registry is the list of the calls made to it, the last one first.  What is to be expected is said of the calls
alone: `lastReported` is what a peer said last, `Call.notice?` the notice that a call holds for a registration, and `Open`
says that a registration has been made and since then neither cancelled nor covered by a report.  The registry after any
run holds just the open registrations, and the next report notifies just those it covers (`notices_accounted`).
-/
namespace GossipNode.AckRegistry

inductive Call where
  | register (peer : PeerAddress) (origin : Origin) (id : SequenceId)
  | cancel (ticket : Nat)
  /-- Whoever waits by this ticket stops listening. -/
  | abandon (ticket : Nat)
  | report (peer : PeerAddress) (vector : StatusVector) (inSync : Bool)

/-- The notices that a call sends, and the registry after it. -/
def call (g : AckRegistry) : Call → List (Registration × Notice) × AckRegistry
  | .register peer o id => ([], (g.register peer o id).2)
  | .cancel ticket => ([], g.cancel ticket)
  | .abandon ticket => ([], g.abandon ticket)
  | .report peer v inSync => g.onStatus peer v inSync

def after : List Call → AckRegistry
  | [] => .empty
  | c :: past => ((after past).call c).2

/-- All notices that a run has sent. -/
def notices : List Call → List (Registration × Notice)
  | [] => []
  | c :: past => notices past ++ ((after past).call c).1

/-! ## What is to be expected -/

def Call.registers : Call → Bool
  | .register .. => true
  | _ => false

def Call.reported? (peer : PeerAddress) (o : Origin) : Call → Option SequenceId
  | .report p v _ => if p = peer then SortedMap.get? v o else none
  | _ => none

/-- What a peer reported last of an origin; 1 if it never did. -/
def lastReported (past : List Call) (peer : PeerAddress) (o : Origin) : SequenceId :=
  (past.findSome? (Call.reported? peer o)).getD 1

/-- **The notice that the next call holds for a registration**: a report of its own peer does if it covers the number
and the report before it did not. -/
def Call.notice? (past : List Call) (r : Registration) : Call → Option Notice
  | .report peer v inSync =>
    if r.peer = peer then
      ((SortedMap.get? v r.origin).filter (fun next => lastReported past peer r.origin ≤ r.id && r.id < next)).map
        (⟨·, inSync⟩)
    else none
  | _ => none

/-- **An open registration**: made, and since then neither cancelled nor notified.  Tickets count the registrations. -/
inductive Open : List Call → Registration → Prop where
  | made (past : List Call) (peer : PeerAddress) (o : Origin) (id : SequenceId) :
    Open (.register peer o id :: past) ⟨past.countP Call.registers, peer, o, id, true⟩
  | abandoned {past : List Call} {r : Registration} (h : Open past r) :
    Open (.abandon r.ticket :: past) { r with listening := false }
  | kept {past : List Call} {r : Registration} {c : Call} (h : Open past r) (cancelled : c ≠ .cancel r.ticket)
    (abandoned : c ≠ .abandon r.ticket) (notified : c.notice? past r = none) : Open (c :: past) r

/-! ## What the registry does -/

theorem nextTicket_after (past : List Call) : (after past).nextTicket = past.countP Call.registers := by
  induction past with
  | nil => rfl
  | cons c past ih =>
    rw [List.countP_cons, ← ih]
    cases c with
    | register | cancel | abandon => rfl
    | report peer v inSync => exact nextTicket_onStatus _ peer v inSync

theorem lastKnown_after (past : List Call) (peer : PeerAddress) (o : Origin) :
    (after past).lastKnown peer o = lastReported past peer o := by
  induction past with
  | nil => rfl
  | cons c past ih =>
    unfold lastReported at ih ⊢
    rw [List.findSome?_cons]
    cases c with
    | register | cancel | abandon => exact ih
    | report p v inSync =>
      refine (lastKnown_onStatus _ p peer v inSync o).trans ?_
      rw [ih, Call.reported?]
      by_cases h : peer = p
      · rw [if_pos h, if_pos h.symm]
        cases SortedMap.get? v o <;> rfl
      · rw [if_neg h, if_neg (Ne.symm h)]

theorem notice?_report (past : List Call) (r : Registration) (peer : PeerAddress) (v : StatusVector) (inSync : Bool) :
    Call.notice? past r (.report peer v inSync) = (after past).noticeFrom? peer inSync v.entries r := by
  unfold noticeFrom? Registration.notice?
  rw [lastKnown_after]
  rfl

theorem mem_pending_call {past : List Call} (ih : ∀ r, r ∈ (after past).pending ↔ Open past r) (c : Call)
    (r : Registration) : r ∈ ((after past).call c).2.pending ↔ Open (c :: past) r := by
  cases c with
  | register peer o id =>
    simp only [call, register, List.mem_append, List.mem_singleton, ih, nextTicket_after]
    constructor
    · rintro (h | rfl)
      · exact .kept h nofun nofun rfl
      · exact .made past peer o id
    · rintro (_ | _ | ⟨h, -, -, -⟩)
      · exact .inr rfl
      · exact .inl h
  | cancel ticket =>
    simp only [call, cancel, List.mem_filter, ih, bne_iff_ne]
    constructor
    · rintro ⟨h, other⟩
      exact .kept h (fun hc => other (Call.cancel.inj hc).symm) nofun rfl
    · rintro (_ | _ | ⟨h, other, -, -⟩)
      exact ⟨h, fun ht => other (ht ▸ rfl)⟩
  | abandon ticket =>
    simp only [call, abandon, List.mem_map, ih]
    constructor
    · rintro ⟨r, h, rfl⟩
      split
      · rename_i ht
        exact ht ▸ .abandoned h
      · rename_i ht
        exact .kept h nofun (fun hc => ht (Call.abandon.inj hc).symm) rfl
    · rintro (_ | h | ⟨h, -, other, -⟩)
      · exact ⟨_, h, if_pos rfl⟩
      · exact ⟨r, h, if_neg (fun ht : r.ticket = ticket => other (ht ▸ rfl))⟩
  | report peer v inSync =>
    simp only [call, pending_onStatus, List.mem_filter, ih, ← notice?_report, Option.isNone_iff_eq_none]
    constructor
    · rintro ⟨h, none⟩
      exact .kept h nofun nofun none
    · rintro (_ | _ | ⟨h, -, -, none⟩)
      exact ⟨h, none⟩

/-- **The registry holds just the open registrations.** -/
theorem mem_pending_after (past : List Call) (r : Registration) : r ∈ (after past).pending ↔ Open past r := by
  induction past generalizing r with
  | nil => exact ⟨nofun, nofun⟩
  | cons c past ih => exact mem_pending_call ih c r

/-! ## Tickets -/

/-- The tickets of all that have been notified or still wait. -/
def tickets (past : List Call) : List Nat :=
  (notices past).map (fun s => s.1.ticket) ++ (after past).pending.map Registration.ticket

/-- **A call gives out at most the next ticket**, and keeps or drops those that are out. -/
theorem tickets_cons (c : Call) (past : List Call) :
    ∃ l, (tickets (c :: past)).Perm l ∧
      l.Sublist (tickets past ++ if c.registers then [past.countP Call.registers] else []) := by
  cases c with
  | register peer o id =>
    refine ⟨_, .of_eq ?_, .refl _⟩
    rw [tickets, tickets, notices, after, call, register, nextTicket_after]
    simp [Call.registers]
  | cancel ticket =>
    refine ⟨_, .refl _, ?_⟩
    simp only [tickets, notices, after, call, cancel, List.append_nil]
    exact .trans (.append_left (List.filter_sublist.map _) _) (List.sublist_append_left _ _)
  | abandon ticket =>
    refine ⟨_, .of_eq ?_, .refl _⟩
    have same : ∀ r : Registration,
        Registration.ticket (if r.ticket = ticket then { r with listening := false } else r) = r.ticket := fun r => by
      split <;> rfl
    simp [tickets, notices, after, call, abandon, Call.registers, Function.comp_def, same]
  | report peer v inSync =>
    -- those that are notified go from the one list to the other
    refine ⟨_, ?_, List.sublist_append_left _ _⟩
    rw [tickets, tickets, notices, List.map_append, List.append_assoc]
    refine .append_left _ ?_
    have parted := (perm_onStatus (after past) peer v inSync).map Registration.ticket
    rw [List.map_append, List.map_map] at parted
    exact parted

/-- **No ticket is held twice**: nobody is notified twice, and nobody who has been notified waits. -/
theorem nodup_tickets (past : List Call) :
    (tickets past).Nodup ∧ ∀ t ∈ tickets past, t < past.countP Call.registers := by
  induction past with
  | nil => exact ⟨.nil, nofun⟩
  | cons c past ih =>
    obtain ⟨nodup, below⟩ := ih
    obtain ⟨l, perm, sub⟩ := tickets_cons c past
    have fresh : (tickets past ++ if c.registers then [past.countP Call.registers] else []).Nodup := by
      refine List.nodup_append.2 ⟨nodup, by split <;> simp, fun t ht t' ht' => ?_⟩
      split at ht'
      · rw [List.mem_singleton.1 ht']
        exact (below t ht).ne
      · cases ht'
    refine ⟨perm.nodup_iff.2 (fresh.sublist sub), fun t ht => ?_⟩
    rw [List.countP_cons]
    rcases List.mem_append.1 (sub.subset (perm.mem_iff.1 ht)) with ht | ht
    · exact (below t ht).trans_le (Nat.le_add_right _ _)
    · split at ht
      · rename_i registers
        rw [List.mem_singleton.1 ht, if_pos registers]
        exact Nat.lt_succ_self _
      · cases ht

theorem nodup_pending (past : List Call) : (after past).pending.Nodup :=
  .of_map _ (List.nodup_append.1 (nodup_tickets past).1).2.1

theorem Open.eq_of_ticket {past : List Call} {r r' : Registration} (h : Open past r) (h' : Open past r')
    (same : r.ticket = r'.ticket) : r = r' :=
  List.inj_on_of_nodup_map (List.nodup_append.1 (nodup_tickets past).1).2.1 ((mem_pending_after past r).2 h)
    ((mem_pending_after past r').2 h') same

/-! ## The account -/

theorem mem_call {past : List Call} {c : Call} {r : Registration} {n : Notice} :
    (r, n) ∈ ((after past).call c).1 ↔ Open past r ∧ c.notice? past r = some n := by
  cases c with
  | register | cancel | abandon => exact ⟨nofun, nofun⟩
  | report peer v inSync => rw [call, mem_sent_onStatus, notice?_report, mem_pending_after]

theorem nodup_sent (c : Call) (past : List Call) : (((after past).call c).1.map Prod.fst).Nodup := by
  have all := (List.nodup_append.1 (nodup_tickets (c :: past)).1).1
  rw [notices, List.map_append] at all
  refine .of_map Registration.ticket ?_
  rw [List.map_map]
  exact (List.nodup_append.1 all).2.1

theorem ncard_of_nodup {l : List Registration} (nodup : l.Nodup) {p : Registration → Prop} (mem : ∀ r, r ∈ l ↔ p r) :
    {r | p r}.ncard = l.length := by
  rw [show {r | p r} = (l.toFinset : Set Registration) by ext r; simp [mem], Set.ncard_coe_finset,
    List.toFinset_card_of_nodup nodup]

theorem fired_call (past : List Call) (c : Call) :
    fired ((after past).call c).1 =
      {r | Open past r ∧ r.listening = true ∧ (c.notice? past r).isSome = true}.ncard := by
  have nodup : ((((after past).call c).1.filter (fun s => s.1.listening)).map Prod.fst).Nodup :=
    (nodup_sent c past).sublist (List.filter_sublist.map _)
  rw [ncard_of_nodup nodup, List.length_map, fired, List.countP_eq_length_filter]
  intro r
  simp only [List.mem_map, List.mem_filter, Prod.exists, exists_and_right, exists_eq_right, mem_call,
    Option.isSome_iff_exists]
  tauto

theorem open_cancel {past : List Call} {ticket : Nat} {r : Registration} :
    Open (.cancel ticket :: past) r ↔ Open past r ∧ r.ticket ≠ ticket := by
  rw [← mem_pending_after, ← mem_pending_after]
  simp [after, call, cancel]

/-- **What a registry owes to its calls**, after a run and at whatever comes next. -/
structure Accounted (past : List Call) : Prop where
  known (peer : PeerAddress) (o : Origin) : (after past).lastKnown peer o = lastReported past peer o
  /-- What waits is what is open, each once. -/
  pending (r : Registration) : r ∈ (after past).pending ↔ Open past r
  count : (after past).pending.length = {r | Open past r}.ncard
  /-- A ticket stands for one registration, from when it is given out. -/
  ticket (peer : PeerAddress) (o : Origin) (id : SequenceId) :
    Open (.register peer o id :: past) ⟨((after past).register peer o id).1, peer, o, id, true⟩
  distinct {r r' : Registration} (h : Open past r) (h' : Open past r') (same : r.ticket = r'.ticket) : r = r'
  once : ((notices past).map (fun s => s.1.ticket)).Nodup
  /-- The next call notifies those that are open and for which it holds a notice. -/
  notified (c : Call) (r : Registration) (n : Notice) :
    (r, n) ∈ ((after past).call c).1 ↔ Open past r ∧ c.notice? past r = some n
  fired (c : Call) : fired ((after past).call c).1 =
    {r | Open past r ∧ r.listening = true ∧ (c.notice? past r).isSome = true}.ncard
  /-- To cancel closes that registration and no other, and does nothing if it is not open. -/
  cancelled (ticket : Nat) (r : Registration) : Open (.cancel ticket :: past) r ↔ Open past r ∧ r.ticket ≠ ticket
  unchanged (ticket : Nat) (closed : ∀ r, Open past r → r.ticket ≠ ticket) : after (.cancel ticket :: past) = after past

/-- **Every run of a registry is accounted for.** -/
theorem notices_accounted (past : List Call) : Accounted past where
  known := lastKnown_after past
  pending := mem_pending_after past
  count := (ncard_of_nodup (nodup_pending past) (mem_pending_after past)).symm
  ticket peer o id := by
    rw [register, nextTicket_after]
    exact .made past peer o id
  distinct := Open.eq_of_ticket
  once := (List.nodup_append.1 (nodup_tickets past).1).1
  notified _ _ _ := mem_call
  fired := fired_call past
  cancelled _ _ := open_cancel
  unchanged ticket closed := by
    have all : (after past).pending.filter (fun r => r.ticket != ticket) = (after past).pending :=
      List.filter_eq_self.2 (fun r hr => bne_iff_ne.2 (closed r ((mem_pending_after past r).1 hr)))
    rw [after, call, cancel, all]

/-- A late report moves what is known of a peer back, and the next one covers what lies between. -/
example :
    let peer : PeerAddress := ⟨"a"⟩
    let o : Origin := ⟨"o"⟩
    let reports next := Call.report peer (SortedMap.ofList [(o, next)]) true
    notices [reports 4, reports 2, .register peer o 3, reports 5] = [(⟨0, peer, o, 3, true⟩, ⟨4, true⟩)] := by
  decide

end GossipNode.AckRegistry
