import Mathlib.Data.Prod.Lex
import Mathlib.Data.List.Chain
import GossipNode.Proofs.Network.Logs
import GossipNode.Proofs.Node.Routes
/-!
# Routes lead to the origin

Nodes with distinct names and distinct addresses, each free to take any action at any time.  Only what a node is offered
is fixed: it is a record that another node has sent out of its store, and the sender is the address of that node.  What
has been sent may be offered to anyone, any number of times, late, in any order, or never.

A table shows where the latest record of an origin came from, and tables are overwritten, so no node sees a whole route.
What rules out loops is a measure over all nodes (`Nearer`): from hop to hop the log of the origin gets longer; or it
stays as long, and then its last record has passed through fewer hands.
-/
namespace GossipNode
namespace RouteNetwork

open LogNetwork (Agreed)

/-- The nodes, and the records that have been sent, each with the node that sent it. -/
structure State (ι : Type) where
  nodes : ι → Node
  sent : List (ι × Record)

namespace State

variable {ι : Type}

def Offers (s : State ι) (sender : PeerAddress) (r : Record) : Prop :=
  ∃ j, (j, r) ∈ s.sent ∧ sender = (s.nodes j).address

/-- Every node of the walk is the next hop towards the origin of the one before it. -/
def Follows (s : State ι) (o : Origin) (walk : List ι) : Prop :=
  walk.IsChain (fun i j => (s.nodes i).routes.nextHop o = .ok (s.nodes j).address)

variable [DecidableEq ι]

def put (s : State ι) (i : ι) (n : Node) : State ι := { s with nodes := Function.update s.nodes i n }

/-- **What can happen**: a node takes an action, answers a request, gets a packet or shuts down; or a node sends a record
out of its store. -/
inductive Step (s : State ι) : State ι → Prop where
  | act (i : ι) {now : Nat} {a : Action} {step : GossipNode.Step} (h : step ∈ (s.nodes i).perform now a)
      (offers : ∀ sender r, a = .accept sender r → s.Offers sender r) : Step s (s.put i step.node)
  | call (i : ι) (request : Request) : Step s (s.put i ((s.nodes i).answer request).node)
  | arrive (i : ι) {room : Nat} {sender : PeerAddress} {p : Packet} {n : Node}
      (h : (s.nodes i).arrive room sender p = some n) : Step s (s.put i n)
  | shutdown (i : ι) : Step s (s.put i (s.nodes i).shutdown)
  | send (i : ι) (r : Record) (held : r ∈ (s.nodes i).store.log r.origin) : Step s { s with sent := (i, r) :: s.sent }

/-- **The states of a run** of nodes that start under their configurations at their addresses.  The number after a log is
a checked sum of 32-bit words: where it would overflow there is no next state. -/
inductive Reachable (configs : ι → Config) (addresses : ι → PeerAddress) : State ι → Prop where
  | start {s : State ι} (fresh : ∀ i, ∃ random auth, Node.new (configs i) (addresses i) random auth = .ok (s.nodes i))
      (sent : s.sent = []) : Reachable configs addresses s
  | step {s s' : State ι} : Reachable configs addresses s → Step s s' → (∀ i, (s'.nodes i).store.Fits) →
      Reachable configs addresses s'

end State

/-! ## The measure -/

section Measure

variable {ι : Type}

def length (x : ι → Outlook) (o : Origin) (i : ι) : Nat := ((x i).store.log o).length

/-- **The second is nearer to the origin**: its log is longer; or it is as long, and the last record has passed through
fewer hands. -/
def Nearer (x : ι → Outlook) (hands : Origin → ι → Nat) (o : Origin) (i j : ι) : Prop :=
  length x o i < length x o j ∨ (length x o i = length x o j ∧ hands o j < hands o i)

variable {x : ι → Outlook} {o : Origin}

/-- No walk gets nearer and nearer for ever. -/
theorem Nearer.wellFounded (hands : Origin → ι → Nat) {bound : Nat} (h : ∀ i, length x o i ≤ bound) :
    WellFounded (fun j i => Nearer x hands o i j) := by
  refine Subrelation.wf (fun {j i} hn => ?_)
    (InvImage.wf (fun i => (bound - length x o i, hands o i)) (Prod.lex Nat.lt_wfRel Nat.lt_wfRel).wf)
  have hj := h j
  rcases hn with hn | ⟨he, hn⟩
  · exact Prod.Lex.left _ _ (show bound - length x o j < bound - length x o i by omega)
  · have same : bound - length x o j = bound - length x o i := by rw [he]
    show Prod.Lex _ _ (_, _) (_, _)
    rw [same]
    exact Prod.Lex.right _ hn

variable {hands : Origin → ι → Nat}

theorem Nearer.irrefl (i : ι) : ¬ Nearer x hands o i i := by
  unfold Nearer
  omega

theorem Nearer.trans {i j k : ι} (h : Nearer x hands o i j) (h' : Nearer x hands o j k) : Nearer x hands o i k := by
  unfold Nearer at *
  omega

/-- Nothing comes between two nodes if the first stays as it is and the second, if its log stays as long, does too. -/
theorem Nearer.mono {x' : ι → Outlook} {hands' : Origin → ι → Nat} {i j : ι} (h : Nearer x hands o i j)
    (first : length x' o i = length x o i ∧ hands' o i = hands o i)
    (second : length x o j < length x' o j ∨ (length x' o j = length x o j ∧ hands' o j = hands o j)) :
    Nearer x' hands' o i j := by
  unfold Nearer at *
  omega

end Measure

/-! ## The invariant -/

/-- What every node has learned leads nearer to the origin; about origins it has no record of, and about itself, it has
learned nothing. -/
structure Charted {ι : Type} (x : ι → Outlook) (hands : Origin → ι → Nat) : Prop where
  silent : ∀ i o, (x i).store.log o = [] ∨ (x i).name = o → (x i).learned.hops.get? o = none
  nearer : ∀ i o, (x i).store.log o ≠ [] → (x i).name ≠ o →
    ∃ j, (x i).learned.hops.get? o = some (x j).address ∧ Nearer x hands o i j

variable {ι : Type} [DecidableEq ι] {x : ι → Outlook}

/-! ### One more record -/

section Push

variable {i : ι} {r : Record} {y : Outlook} {hands hands' : Origin → ι → Nat}

theorem address_update (address : y.address = (x i).address) (j : ι) :
    (Function.update x i y j).address = (x j).address := by
  by_cases hj : j = i
  · subst hj; rw [Function.update_self, address]
  · rw [Function.update_of_ne hj]

theorem length_update (store : y.store = (x i).store.push r) (o : Origin) (j : ι) :
    length (Function.update x i y) o j = if j = i ∧ o = r.origin then length x o j + 1 else length x o j := by
  unfold length
  by_cases hj : j = i
  · subst hj
    rw [Function.update_self, store, Store.log_push]
    by_cases ho : o = r.origin
    · simp [ho]
    · simp [ho]
  · rw [Function.update_of_ne hj, if_neg (fun h => hj h.1)]

/-- **A longer log keeps others near**: whoever was farther than the node that takes the record still is. -/
theorem Nearer.push {o : Origin} {k j : ι} (h : Nearer x hands o k j) (store : y.store = (x i).store.push r)
    (kept : ∀ o j, ¬ (j = i ∧ o = r.origin) → hands' o j = hands o j) (hk : ¬ (k = i ∧ o = r.origin)) :
    Nearer (Function.update x i y) hands' o k j := by
  refine h.mono ⟨?_, kept o k hk⟩ ?_
  · rw [length_update store, if_neg hk]
  · rw [length_update store]
    by_cases hj : j = i ∧ o = r.origin
    · rw [if_pos hj]
      exact .inl (Nat.lt_succ_self _)
    · rw [if_neg hj]
      exact .inr ⟨rfl, kept o j hj⟩

/-- **The chart stays right** for all nodes but the one that takes the record; what is left to say is about that node. -/
theorem Charted.push (h : Charted x hands) (name : y.name = (x i).name) (address : y.address = (x i).address)
    (store : y.store = (x i).store.push r) (kept : ∀ o j, ¬ (j = i ∧ o = r.origin) → hands' o j = hands o j)
    (same : ∀ o, o ≠ r.origin → y.learned.hops.get? o = (x i).learned.hops.get? o)
    (silent : (x i).name = r.origin → y.learned.hops.get? r.origin = none)
    (nearer : (x i).name ≠ r.origin → ∃ j, y.learned.hops.get? r.origin = some (x j).address ∧
      Nearer (Function.update x i y) hands' r.origin i j) : Charted (Function.update x i y) hands' := by
  refine ⟨fun k o hko => ?_, fun k o hlog hname => ?_⟩
  · by_cases hk : k = i
    · subst hk
      rw [Function.update_self] at hko ⊢
      by_cases ho : o = r.origin
      · subst ho
        rcases hko with hko | hko
        · rw [store, Store.log_push_self] at hko
          exact absurd hko (by simp)
        · exact silent (by rw [← name]; exact hko)
      · rw [same o ho]
        refine h.silent k o ?_
        rw [store, Store.log_push, if_neg ho, name] at hko
        exact hko
    · rw [Function.update_of_ne hk] at hko ⊢
      exact h.silent k o hko
  · by_cases hk : k = i ∧ o = r.origin
    · obtain ⟨rfl, rfl⟩ := hk
      rw [Function.update_self] at hname ⊢
      obtain ⟨j, hj, hn⟩ := nearer (by rw [← name]; exact hname)
      exact ⟨j, by rw [address_update address, hj], hn⟩
    · have before : (x k).store.log o ≠ [] ∧ (x k).name ≠ o ∧
          (Function.update x i y k).learned.hops.get? o = (x k).learned.hops.get? o := by
        by_cases hki : k = i
        · subst hki
          have ho : o ≠ r.origin := fun ho => hk ⟨rfl, ho⟩
          rw [Function.update_self] at hlog hname ⊢
          rw [store, Store.log_push, if_neg ho] at hlog
          exact ⟨hlog, by rw [← name]; exact hname, same o ho⟩
        · rw [Function.update_of_ne hki] at hlog hname ⊢
          exact ⟨hlog, hname, rfl⟩
      obtain ⟨j, hj, hn⟩ := h.nearer k o before.1 before.2.1
      exact ⟨j, by rw [address_update address, before.2.2, hj], hn.push store kept hk⟩

end Push

/-- **The invariant**: the stores agree, and for some count of hands the chart is right. -/
structure Routed (x : ι → Outlook) : Prop where
  agreed : Agreed (fun i => (x i).name) (fun i => (x i).store)
  room : ∀ i, (x i).store.Fits
  charted : ∃ hands, Charted x hands

theorem agreed_update {i : ι} {y : Outlook} (name : y.name = (x i).name)
    (h : Agreed (fun k => (x k).name) (Function.update (fun k => (x k).store) i y.store)) :
    Agreed (fun k => (Function.update x i y k).name) (fun k => (Function.update x i y k).store) := by
  have names : (fun k => (Function.update x i y k).name) = fun k => (x k).name := by
    funext k
    by_cases hk : k = i
    · subst hk; rw [Function.update_self, name]
    · rw [Function.update_of_ne hk]
  have stores : (fun k => (Function.update x i y k).store) = Function.update (fun k => (x k).store) i y.store := by
    funext k
    by_cases hk : k = i
    · subst hk; simp
    · simp [hk]
  rw [names, stores]
  exact h

namespace Routed

variable {i : ι}

/-- **A node may make a record**: nobody, and it least of all, learns a route from that. -/
theorem made (h : Routed x) (distinct : Function.Injective (fun i => (x i).name)) {r : Record}
    (origin : r.origin = (x i).name) (id : r.id = (x i).store.nextId r.origin)
    (fits : ∀ j, (Function.update x i { x i with store := (x i).store.push r } j).store.Fits) :
    Routed (Function.update x i { x i with store := (x i).store.push r }) := by
  obtain ⟨hands, charted⟩ := h.charted
  refine ⟨agreed_update rfl (h.agreed.append distinct (h.room i) origin id), fits, hands, ?_⟩
  refine charted.push rfl rfl rfl (fun _ _ _ => rfl) (fun _ _ => rfl) (fun _ => ?_) (fun hne => ?_)
  · exact charted.silent i r.origin (.inr origin.symm)
  · exact absurd origin.symm hne

/-- **A node may take a record that another holds**: the other one is nearer to the origin, even if it has no more of
the log, for the record has been in its hands before. -/
theorem taken (h : Routed x) (distinct : Function.Injective (fun i => (x i).name)) {j : ι} {r : Record}
    (held : r ∈ (x j).store.log r.origin) (id : r.id = (x i).store.nextId r.origin)
    (fits : ∀ k, (Function.update x i ((x i).take (x j).address r) k).store.Fits) :
    Routed (Function.update x i ((x i).take (x j).address r)) := by
  obtain ⟨hands, charted⟩ := h.charted
  have hheld : LogNetwork.Held (fun k => (x k).store) r := ⟨j, r.origin, held⟩
  have foreign : r.origin ≠ (x i).name := fun ho =>
    h.agreed.not_new_of_own distinct (h.room i) hheld ho (Store.accept_new_iff.2 id)
  -- the sender's log goes past the log of the node, so the sender is another node
  have ahead : length x r.origin i < length x r.origin j := by
    have hid := (h.agreed.sound i).toNat_nextId (h.room i) r.origin
    have hle := ((h.agreed.sound j).numbered r.origin).id_le held
    rw [id] at hle
    unfold length
    omega
  have other : j ≠ i := by
    intro hj
    rw [hj] at ahead
    exact Nat.lt_irrefl _ ahead
  refine ⟨?_, fits, Function.update hands r.origin (Function.update (hands r.origin) i (hands r.origin j + 1)), ?_⟩
  · have accepted := h.agreed.accept distinct (h.room i) hheld
    rw [Store.accept_of_eq id] at accepted
    exact agreed_update rfl accepted
  · refine charted.push rfl rfl rfl (fun o k hk => ?_) (fun o ho => ?_) (fun ho => ?_) (fun _ => ⟨j, ?_, ?_⟩)
    · by_cases ho : o = r.origin
      · subst ho
        rw [Function.update_self, Function.update_of_ne (fun hki => hk ⟨hki, rfl⟩)]
      · rw [Function.update_of_ne ho]
    · exact (RoutingTable.get?_apply _ _ o).trans (if_neg ho)
    · exact absurd ho.symm foreign
    · exact (RoutingTable.get?_apply _ _ r.origin).trans (if_pos rfl)
    · have taker := length_update (x := x) (i := i) (r := r) (y := (x i).take (x j).address r) rfl r.origin i
      have giver := length_update (x := x) (i := i) (r := r) (y := (x i).take (x j).address r) rfl r.origin j
      rw [if_pos ⟨rfl, rfl⟩] at taker
      rw [if_neg (fun hji => other hji.1)] at giver
      unfold Nearer
      rw [taker, giver, Function.update_self, Function.update_self, Function.update_of_ne other]
      omega

theorem change (h : Routed x) (distinct : Function.Injective (fun i => (x i).name)) {y : Outlook}
    (c : (x i).Change (fun sender r => ∃ j, r ∈ (x j).store.log r.origin ∧ sender = (x j).address) y)
    (fits : ∀ j, (Function.update x i y j).store.Fits) : Routed (Function.update x i y) := by
  cases c with
  | same =>
    rw [Function.update_eq_self]
    exact h
  | made r origin id => exact h.made distinct origin id fits
  | taken sender r offer id =>
    obtain ⟨j, held, rfl⟩ := offer
    exact h.taken distinct held id fits

end Routed

/-! ## Walks -/

section Walks

omit [DecidableEq ι]

/-- **Where there is one way to go on, and none at the end, there is one walk.** -/
theorem prefix_of_isChain {R : ι → ι → Prop} (one : ∀ a b c, R a b → R a c → b = c) {k : ι} (arrived : ∀ b, ¬ R k b)
    {path : List ι} : ∀ {a : ι} {walk : List ι}, (a :: path).IsChain R → (a :: path).getLast? = some k →
      (a :: walk).IsChain R → walk <+: path := by
  induction path with
  | nil =>
    intro a walk _ hlast hwalk
    have ha : a = k := Option.some.inj hlast
    cases walk with
    | nil => exact List.prefix_rfl
    | cons b walk =>
      rw [ha] at hwalk
      exact absurd (List.isChain_cons_cons.1 hwalk).1 (arrived b)
  | cons b path ih =>
    intro a walk hpath hlast hwalk
    cases walk with
    | nil => exact List.nil_prefix
    | cons c walk =>
      obtain ⟨hb, hpath⟩ := List.isChain_cons_cons.1 hpath
      obtain ⟨hc, hwalk⟩ := List.isChain_cons_cons.1 hwalk
      obtain rfl := one a b c hb hc
      rw [List.getLast?_cons_cons] at hlast
      exact List.cons_prefix_cons.2 ⟨rfl, ih hpath hlast hwalk⟩

/-- **From everyone who has a record of the origin, a walk gets nearer and nearer until it is there.** -/
theorem Charted.exists_walk {hands : Origin → ι → Nat} (h : Charted x hands)
    (agreed : Agreed (fun i => (x i).name) (fun i => (x i).store)) {o : Origin} (i : ι) (hi : (x i).store.log o ≠ []) :
    ∃ path k, (i :: path).getLast? = some k ∧ (x k).name = o ∧ (i :: path).Pairwise (Nearer x hands o) ∧
      (i :: path).IsChain (fun a b => (x a).learned.hops.get? o = some (x b).address) := by
  obtain ⟨owner, rfl⟩ := agreed.named i o hi
  have bound : ∀ k, length x (x owner).name k ≤ length x (x owner).name owner := fun k =>
    (agreed.below k owner).length_le
  -- the induction is on how near the node is; the next hop is nearer, and what it holds is no less
  induction i using (Nearer.wellFounded hands bound).induction with
  | _ i ih =>
  by_cases hname : (x i).name = (x owner).name
  · exact ⟨[], i, rfl, hname, List.pairwise_singleton _ i, List.isChain_singleton i⟩
  obtain ⟨j, hhop, hnear⟩ := h.nearer i _ hi hname
  have hj : (x j).store.log (x owner).name ≠ [] := by
    have pos := List.length_pos_iff.2 hi
    have le : length x (x owner).name i ≤ length x (x owner).name j := by
      rcases hnear with hlt | ⟨he, -⟩
      · exact Nat.le_of_lt hlt
      · exact Nat.le_of_eq he
    exact List.length_pos_iff.1 (Nat.lt_of_lt_of_le pos le)
  obtain ⟨path, k, hlast, hk, hpath, hchain⟩ := ih j hnear hj
  refine ⟨j :: path, k, ?_, hk, List.pairwise_cons.2 ⟨fun m hm => ?_, hpath⟩, List.isChain_cons_cons.2 ⟨hhop, hchain⟩⟩
  · rw [List.getLast?_cons_cons]
    exact hlast
  · rcases List.mem_cons.1 hm with rfl | hm
    · exact hnear
    · exact hnear.trans ((List.pairwise_cons.1 hpath).1 m hm)

end Walks

/-! ## Runs -/

namespace State

def outlooks (s : State ι) : ι → Outlook := fun i => (s.nodes i).outlook

theorem outlooks_put (s : State ι) (i : ι) (n : Node) :
    (s.put i n).outlooks = Function.update s.outlooks i n.outlook := by
  funext k
  unfold outlooks put
  by_cases hk : k = i
  · subst hk; simp
  · simp [hk]

/-- **A step is a change at one node**, or something is sent. -/
theorem Step.cases {s s' : State ι} (h : Step s s') :
    (∃ i y, (s.outlooks i).Change s.Offers y ∧ s'.outlooks = Function.update s.outlooks i y ∧ s'.sent = s.sent) ∨
    (∃ i r, r ∈ (s.outlooks i).store.log r.origin ∧ s'.outlooks = s.outlooks ∧ s'.sent = (i, r) :: s.sent) := by
  cases h with
  | act i h offers => exact .inl ⟨i, _, (Node.outlook_of_perform h).imp offers, s.outlooks_put i _, rfl⟩
  | call i request =>
    exact .inl ⟨i, _, (Node.outlook_answer _ request).imp (fun _ _ h => h.elim), s.outlooks_put i _, rfl⟩
  | arrive i h =>
    refine .inl ⟨i, _, .same, ?_, rfl⟩
    rw [outlooks_put, Node.outlook_arrive h]
    rfl
  | shutdown i =>
    refine .inl ⟨i, _, .same, ?_, rfl⟩
    rw [outlooks_put, Node.outlook_shutdown]
    rfl
  | send i r held => exact .inr ⟨i, r, held, rfl, rfl⟩

variable {configs : ι → Config} {addresses : ι → PeerAddress} {s s' : State ι}

/-- **The invariant of a run**: nodes keep their names and addresses, who has sent a record holds it, and routes lead
nearer. -/
structure Invariant (configs : ι → Config) (addresses : ι → PeerAddress) (s : State ι) : Prop where
  name : ∀ i, (s.outlooks i).name = (configs i).origin
  address : ∀ i, (s.outlooks i).address = addresses i
  sent : ∀ e ∈ s.sent, e.2 ∈ (s.outlooks e.1).store.log e.2.origin
  routed : Routed s.outlooks

omit [DecidableEq ι] in
theorem Invariant.start (fresh : ∀ i, ∃ random auth, Node.new (configs i) (addresses i) random auth = .ok (s.nodes i))
    (sent : s.sent = []) : s.Invariant configs addresses := by
  have first : s.outlooks = fun i => ⟨(configs i).origin, addresses i, .empty, .empty⟩ := by
    funext i
    obtain ⟨random, auth, hnew⟩ := fresh i
    exact Node.outlook_new hnew
  refine ⟨fun i => by rw [first], fun i => by rw [first], fun e he => ?_, ?_⟩
  · rw [sent] at he
    cases he
  · rw [first]
    exact ⟨.start, fun _ => Store.fits_empty, fun _ _ => 0, fun _ _ _ => rfl, fun _ _ hlog => absurd rfl hlog⟩

theorem Invariant.step (h : s.Invariant configs addresses) (distinct : Function.Injective (fun i => (configs i).origin))
    (step : Step s s') (fits : ∀ i, (s'.nodes i).store.Fits) : s'.Invariant configs addresses := by
  rcases step.cases with ⟨i, y, change, he, hsent⟩ | ⟨i, r, held, he, hsent⟩
  · obtain ⟨name, address, grown⟩ := change.kept
    have distinct' : Function.Injective (fun i => (s.outlooks i).name) := by
      rw [funext h.name]
      exact distinct
    have offered : (s.outlooks i).Change (fun sender r => ∃ j, r ∈ (s.outlooks j).store.log r.origin ∧
        sender = (s.outlooks j).address) y := by
      refine change.imp (fun sender r hr => ?_)
      obtain ⟨j, hj, hsender⟩ := hr
      exact ⟨j, h.sent _ hj, hsender⟩
    have others : ∀ j, (s'.outlooks j).name = (s.outlooks j).name ∧ (s'.outlooks j).address = (s.outlooks j).address ∧
        ∀ o, (s.outlooks j).store.log o <+: (s'.outlooks j).store.log o := by
      intro j
      rw [he]
      by_cases hj : j = i
      · subst hj; rw [Function.update_self]; exact ⟨name, address, grown⟩
      · rw [Function.update_of_ne hj]; exact ⟨rfl, rfl, fun _ => List.prefix_rfl⟩
    refine ⟨fun j => (others j).1.trans (h.name j), fun j => (others j).2.1.trans (h.address j), fun e hmem => ?_, ?_⟩
    · rw [hsent] at hmem
      exact ((others e.1).2.2 _).subset (h.sent e hmem)
    · rw [he]
      refine h.routed.change distinct' offered (fun j => ?_)
      rw [← he]
      exact fits j
  · refine ⟨by rw [he]; exact h.name, by rw [he]; exact h.address, fun e hmem => ?_, by rw [he]; exact h.routed⟩
    rw [hsent] at hmem
    rw [he]
    rcases List.mem_cons.1 hmem with rfl | hmem
    · exact held
    · exact h.sent e hmem

theorem invariant_of_reachable (distinct : Function.Injective (fun i => (configs i).origin))
    (h : Reachable configs addresses s) : s.Invariant configs addresses := by
  induction h with
  | start fresh sent => exact .start fresh sent
  | step _ step fits ih => exact ih.step distinct step fits

/-- **Routes lead to the origin without loops.**  Once no update waits to be applied, whoever holds a record of an origin,
and is not the origin itself, has a next hop towards it.  From there, hop by hop, a walk leads to the node of that name
and visits no node twice; and there is no other way to follow next hops: whatever follows them is a beginning of that
walk. -/
theorem routes_lead_to_origin (names : Function.Injective (fun i => (configs i).origin))
    (distinct : Function.Injective addresses) (h : Reachable configs addresses s)
    (drained : ∀ i, (s.nodes i).routeQueue = []) {i : ι} {o : Origin} {r : Record}
    (held : r ∈ (s.nodes i).store.log o) (other : (configs i).origin ≠ o) :
    (∃ hop, (s.nodes i).routes.nextHop o = .ok hop) ∧
    ∃ path k, s.Follows o (i :: path) ∧ (i :: path).Nodup ∧ (i :: path).getLast? = some k ∧ (configs k).origin = o ∧
      ∀ walk, s.Follows o (i :: walk) → walk <+: path := by
  have inv := invariant_of_reachable names h
  obtain ⟨hands, charted⟩ := inv.routed.charted
  have hops : ∀ a b, (s.nodes a).routes.nextHop o = .ok (s.nodes b).address ↔
      (s.outlooks a).learned.hops.get? o = some (s.outlooks b).address := by
    intro a b
    rw [RoutingTable.nextHop_eq_ok_iff, ← Node.learned_of_drained (drained a)]
    rfl
  obtain ⟨path, k, hlast, hk, hpath, hchain⟩ :=
    charted.exists_walk inv.routed.agreed i (List.ne_nil_of_mem held)
  rw [inv.name] at hk
  have follows : s.Follows o (i :: path) := hchain.imp (fun {a b} hab => (hops a b).2 hab)
  have nodup : (i :: path).Nodup := hpath.imp (fun {a b} hab he => by
    subst he
    exact Nearer.irrefl a hab)
  have one : ∀ a b c, (s.nodes a).routes.nextHop o = .ok (s.nodes b).address →
      (s.nodes a).routes.nextHop o = .ok (s.nodes c).address → b = c := by
    intro a b c hb hc
    have same : addresses b = addresses c := by
      rw [← inv.address b, ← inv.address c]
      exact Except.ok.inj (hb.symm.trans hc)
    exact distinct same
  have arrived : ∀ b, (s.nodes k).routes.nextHop o ≠ .ok (s.nodes b).address := by
    intro b hb
    have hop := (hops k b).1 hb
    rw [charted.silent k o (.inr ((inv.name k).trans hk))] at hop
    cases hop
  refine ⟨?_, path, k, follows, nodup, hlast, hk, fun walk => prefix_of_isChain one arrived follows hlast⟩
  cases path with
  | nil =>
    rw [← Option.some.inj hlast] at hk
    exact absurd hk other
  | cons b path => exact ⟨_, (List.isChain_cons_cons.1 follows).1⟩

/-- A rumor goes from the first of three nodes to the second, and from the second to the third. -/
theorem routes_lead_to_origin_two_hops :
    let config (name : String) : Config := { name, peers := [], peerCount := 3 }
    let configs : Fin 3 → Config := fun i => config (["a", "b", "c"][i])
    let addresses : Fin 3 → PeerAddress := fun i => [⟨"A"⟩, ⟨"B"⟩, ⟨"C"⟩][i]
    let r : Record := .rumor ⟨⟨"a"⟩, 1, "x"⟩
    ∃ s : State (Fin 3), Function.Injective (fun i => (configs i).origin) ∧ Function.Injective addresses ∧
      Reachable configs addresses s ∧ (∀ i, (s.nodes i).routeQueue = []) ∧ r ∈ (s.nodes 2).store.log ⟨"a"⟩ ∧
      (configs 2).origin ≠ ⟨"a"⟩ ∧ s.Follows ⟨"a"⟩ [2, 1, 0] ∧
      ∃ path k, s.Follows ⟨"a"⟩ (2 :: path) ∧ (2 :: path).Nodup ∧ (2 :: path).getLast? = some k ∧
        (configs k).origin = ⟨"a"⟩ ∧ [1, 0] <+: path := by
  intro config configs addresses r
  have names : Function.Injective (fun i => (configs i).origin) := by intro i j; revert i j; decide +kernel
  have distinct : Function.Injective addresses := by intro i j; revert i j; decide +kernel
  let nodes : Fin 3 → Node := fun i =>
    (Node.new (configs i) (addresses i) .ambient .acceptAll).toOption.get (by revert i; decide +kernel)
  have h0 : Reachable configs addresses ⟨nodes, []⟩ := by
    refine .start (fun i => ⟨.ambient, .acceptAll, ?_⟩) rfl
    have hget : (Node.new (configs i) (addresses i) .ambient .acceptAll).toOption = some (nodes i) := by
      rw [Option.some_get]
    cases hnew : Node.new (configs i) (addresses i) .ambient .acceptAll with
    | error e => rw [hnew] at hget; cases hget
    | ok n => rw [hnew] at hget; rw [Option.some.inj hget]
  have h1 := h0.step (.call 0 (.postRumor "x")) (by decide +kernel)
  have h2 := h1.step (.send 0 r (by decide +kernel)) (by decide +kernel)
  have h3 := h2.step (@Step.act _ _ _ 1 0 (.accept ⟨"A"⟩ r) _ List.mem_cons_self (by
    rintro _ _ ⟨⟩
    exact ⟨0, List.mem_cons_self, by decide +kernel⟩)) (by decide +kernel)
  have h4 := h3.step (.send 1 r (by decide +kernel)) (by decide +kernel)
  have h5 := h4.step (@Step.act _ _ _ 2 0 (.accept ⟨"B"⟩ r) _ List.mem_cons_self (by
    rintro _ _ ⟨⟩
    exact ⟨1, List.mem_cons_self, by decide +kernel⟩)) (by decide +kernel)
  have h6 := h5.step (@Step.act _ _ _ 1 0 .applyRoute _ List.mem_cons_self (fun _ _ h => nomatch h)) (by decide +kernel)
  have h7 := h6.step (@Step.act _ _ _ 2 0 .applyRoute _ List.mem_cons_self (fun _ _ h => nomatch h)) (by decide +kernel)
  obtain ⟨s, reachable, drained, held, follows⟩ : ∃ s : State (Fin 3), Reachable configs addresses s ∧
      (∀ i, (s.nodes i).routeQueue = []) ∧ r ∈ (s.nodes 2).store.log ⟨"a"⟩ ∧ s.Follows ⟨"a"⟩ [2, 1, 0] := by
    refine ⟨_, h7, by decide +kernel, by decide +kernel, ?_⟩
    unfold Follows
    simp only [RoutingTable.nextHop_eq_ok_iff]
    decide +kernel
  have other : (configs 2).origin ≠ ⟨"a"⟩ := by decide +kernel
  obtain ⟨-, path, k, walk, nodup, last, origin, only⟩ :=
    routes_lead_to_origin names distinct reachable drained held other
  exact ⟨s, names, distinct, reachable, drained, held, other, follows, path, k, walk, nodup, last, origin, only _ follows⟩

end State

end RouteNetwork
end GossipNode
