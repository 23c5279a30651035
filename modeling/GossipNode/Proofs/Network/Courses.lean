import Mathlib.Logic.Relation
import GossipNode.Proofs.Network.Histories
import GossipNode.Proofs.Node.Books
/-!
# The course of one task

A task is followed by itself: its own actions, one after another, and between any two of them whatever else may happen to
its node (`Course`).  Of that nothing is fixed but what every turn of a machine keeps: the books stay in order
(`Node.Books.Tidy`), known peers are not forgotten, tickets are given out in turn, and no registration comes back
(`Node.Books.Grows`).  So a course meets every answer that a wait can get, at any time.

What is shown of all courses holds of the tasks of a machine, since each of them takes one (`Machine.course_of_later`).
-/
namespace GossipNode

/-! ## Registrations and notices -/

namespace AckRegistry

/-- The tickets of all registrations, with those that nobody waits with any more. -/
def registered (g : AckRegistry) : List Nat := g.pending.map Registration.ticket

theorem registered_register (g : AckRegistry) (peer : PeerAddress) (o : Origin) (id : SequenceId) :
    (g.register peer o id).2.registered = g.registered ++ [g.nextTicket] := List.map_append

theorem registered_abandon (g : AckRegistry) (t : Nat) : (g.abandon t).registered = g.registered := by
  unfold registered abandon
  rw [List.map_map, Balanced.ticket_comp_quiet]

theorem registered_cancel (g : AckRegistry) (t : Nat) : (g.cancel t).registered = g.registered.filter (fun x => x != t) := by
  unfold registered cancel
  rw [List.filter_map]
  rfl

/-- A report parts the tickets: of some the notices are sent, the others stay. -/
theorem perm_registered_onStatus (g : AckRegistry) (peer : PeerAddress) (v : StatusVector) (inSync : Bool) :
    ((g.onStatus peer v inSync).1.map (fun s => s.1.ticket) ++ (g.onStatus peer v inSync).2.registered).Perm
      g.registered := by
  have parted := (g.perm_onStatus peer v inSync).map Registration.ticket
  rw [List.map_append, List.map_map] at parted
  exact parted

end AckRegistry

namespace Node.Books

/-- **Books in order**: the node is none of its peers, a ticket has one registration, and none while there is a notice. -/
structure Tidy (b : Books) : Prop where
  own : b.peers.own = b.address
  other : b.address ∉ b.peers.all
  once : b.acks.registered.Nodup
  given : ∀ t ∈ b.acks.registered, t < b.acks.nextTicket
  noticed : ∀ t ∈ b.notices.keys, t < b.acks.nextTicket ∧ t ∉ b.acks.registered

/-- **What becomes of books**, whatever happens: peers become known, tickets are given out. -/
structure Grows (b b' : Books) : Prop where
  address : b'.address = b.address
  peers : b.peers.all ⊆ b'.peers.all
  nextTicket : b.acks.nextTicket ≤ b'.acks.nextTicket
  /-- A registration is an old one, or its ticket is new. -/
  registered : ∀ t ∈ b'.acks.registered, t ∈ b.acks.registered ∨ b.acks.nextTicket ≤ t

instance (b : Books) : Decidable b.Tidy :=
  decidable_of_iff (b.peers.own = b.address ∧ b.address ∉ b.peers.all ∧ b.acks.registered.Nodup ∧
      (∀ t ∈ b.acks.registered, t < b.acks.nextTicket) ∧ ∀ t ∈ b.notices.keys, t < b.acks.nextTicket ∧ t ∉ b.acks.registered)
    ⟨fun ⟨own, other, once, given, noticed⟩ => ⟨own, other, once, given, noticed⟩,
      fun h => ⟨h.own, h.other, h.once, h.given, h.noticed⟩⟩

instance (b b' : Books) : Decidable (b.Grows b') :=
  decidable_of_iff (b'.address = b.address ∧ b.peers.all ⊆ b'.peers.all ∧ b.acks.nextTicket ≤ b'.acks.nextTicket ∧
      ∀ t ∈ b'.acks.registered, t ∈ b.acks.registered ∨ b.acks.nextTicket ≤ t)
    ⟨fun ⟨address, peers, next, registered⟩ => ⟨address, peers, next, registered⟩,
      fun h => ⟨h.address, h.peers, h.nextTicket, h.registered⟩⟩

variable {b b' b'' : Books} {t : Nat}

theorem Grows.refl (b : Books) : b.Grows b := ⟨rfl, List.Subset.refl _, Nat.le_refl _, fun _ ht => .inl ht⟩

theorem Grows.trans (h : b.Grows b') (h' : b'.Grows b'') : b.Grows b'' where
  address := h'.address.trans h.address
  peers := List.Subset.trans h.peers h'.peers
  nextTicket := h.nextTicket.trans h'.nextTicket
  registered t ht := by
    rcases h'.registered t ht with ht | ht
    · exact h.registered t ht
    · exact .inr (h.nextTicket.trans ht)

/-- **A registration that is gone does not come back.** -/
theorem Grows.gone (h : b.Grows b') (given : t < b.acks.nextTicket) (gone : t ∉ b.acks.registered) :
    t ∉ b'.acks.registered := by
  intro ht
  rcases h.registered t ht with ht | ht
  · exact gone ht
  · omega

theorem Grows.learn (b : Books) (p : PeerAddress) : b.Grows (b.learn p) where
  address := rfl
  peers q hq := by
    unfold Books.learn PeerSet.insert
    split
    · exact hq
    · exact SortedSet.mem_toList_add.2 (.inr hq)
  nextTicket := Nat.le_refl _
  registered _ ht := .inl ht

theorem Tidy.learn (h : b.Tidy) (p : PeerAddress) : (b.learn p).Tidy where
  own := (b.peers.own_insert p).trans h.own
  other := by
    have other := h.other
    rw [← h.own, PeerSet.all, SortedSet.mem_toList] at other
    rw [show (b.learn p).address = b.peers.own from h.own.symm, PeerSet.all, SortedSet.mem_toList, Bool.not_eq_true]
    exact PeerSet.contains_own_insert (Bool.not_eq_true _ ▸ other) p
  once := h.once
  given := h.given
  noticed := h.noticed

/-- A report takes registrations away; each notice has the ticket of one of them. -/
theorem Tidy.report (h : b.Tidy) (peer : PeerAddress) (v : StatusVector) (inSync : Bool) :
    (b.report peer v inSync).Tidy ∧ b.Grows (b.report peer v inSync) := by
  have parted := b.acks.perm_registered_onStatus peer v inSync
  have next := b.acks.nextTicket_onStatus peer v inSync
  have once := parted.nodup_iff.2 h.once
  unfold Books.report
  generalize b.acks.onStatus peer v inSync = reported at parted next once
  obtain ⟨sent, g⟩ := reported
  dsimp only at parted next once ⊢
  obtain ⟨onceSent, onceLeft, apart⟩ := List.nodup_append.1 once
  have left : g.registered ⊆ b.acks.registered := fun t ht => parted.mem_iff.1 (List.mem_append_right _ ht)
  have heard : ((sent.filter fun s => s.1.listening).map fun s => s.1.ticket).Sublist (sent.map fun s => s.1.ticket) :=
    List.filter_sublist.map _
  have given (t : Nat) (ht : t ∈ (sent.filter fun s => s.1.listening).map fun s => s.1.ticket) : t ∈ b.acks.registered :=
    parted.mem_iff.1 (List.mem_append_left _ (heard.subset ht))
  have fresh : ((sent.filter fun s => s.1.listening).map (fun s => s.1.ticket) ++ b.notices.keys).Nodup :=
    List.Nodup.append (onceSent.sublist heard) b.notices.nodup_keys fun t ht hk => (h.noticed t hk).2 (given t ht)
  refine ⟨⟨h.own, h.other, onceLeft, fun t ht => ?_, fun t ht => ?_⟩, rfl, List.Subset.refl _, Nat.le_of_eq next.symm,
    fun t ht => .inl (left ht)⟩
  · rw [next]
    exact h.given t (left ht)
  · rw [next]
    rcases List.mem_append.1 ((SortedMap.perm_keys_foldl_insert _ _ fresh).mem_iff.1 ht) with ht | ht
    · exact ⟨h.given t (given t ht), fun hg => apart t (heard.subset ht) t hg rfl⟩
    · exact ⟨(h.noticed t ht).1, fun hg => (h.noticed t ht).2 (left hg)⟩

end Node.Books

namespace Node

variable {n : Node} {a : Action} {now : Nat} {step : Step} {b : Books} {begun left : List Nat}

/-- **An action keeps the books in order.** -/
theorem Entry.tidy (entry : n.Entry a b begun left) (h : n.books.Tidy) : b.Tidy ∧ n.books.Grows b := by
  cases entry with
  | nothing | refused => exact ⟨h, .refl _⟩
  | learned => exact ⟨h.learn _, .learn _ _⟩
  | accepted | closed | appended =>
    exact ⟨⟨h.own, h.other, h.once, h.given, h.noticed⟩, rfl, List.Subset.refl _, Nat.le_refl _, fun _ ht => .inl ht⟩
  | settled => exact h.report _ _ _
  | @sent r p =>
    have registered (t : Nat) (ht : t ∈ (n.acks.register p r.origin r.id).2.registered) :
        t ∈ n.acks.registered ∨ t = n.acks.nextTicket := by
      rw [AckRegistry.registered_register] at ht
      exact (List.mem_append.1 ht).imp_right List.mem_singleton.1
    refine ⟨⟨h.own, h.other, ?_, fun t ht => ?_, fun t ht => ?_⟩, rfl, List.Subset.refl _, Nat.le_succ _, fun t ht => ?_⟩
    · rw [show (AckRegistry.registered _) = _ from n.acks.registered_register p r.origin r.id]
      exact List.Nodup.append h.once (List.nodup_singleton _)
        (List.disjoint_singleton.2 fun ht => Nat.lt_irrefl _ (h.given _ ht))
    · rcases registered t ht with ht | rfl
      · exact Nat.lt_succ_of_lt (h.given t ht)
      · exact Nat.lt_succ_self _
    · obtain ⟨given, gone⟩ := h.noticed t ht
      refine ⟨Nat.lt_succ_of_lt given, fun held => ?_⟩
      rcases registered t held with held | rfl
      · exact gone held
      · exact Nat.lt_irrefl _ given
    · exact (registered t ht).imp_right fun he => Nat.le_of_eq he.symm
  | @heard r p ticket deadline notice there =>
    refine ⟨⟨h.own, h.other, h.once, h.given, fun t ht => h.noticed t ?_⟩, rfl, List.Subset.refl _, Nat.le_refl _,
      fun _ ht => .inl ht⟩
    exact (SortedMap.perm_keys_of_get? there).mem_iff.2 (List.mem_cons_of_mem _ ht)
  | @late r p ticket deadline absent =>
    have same := n.acks.registered_abandon ticket
    refine ⟨⟨h.own, h.other, ?_, fun t ht => ?_, fun t ht => ?_⟩, rfl, List.Subset.refl _, Nat.le_refl _, fun t ht => ?_⟩
    · exact same ▸ h.once
    · exact h.given t (same ▸ ht)
    · exact ⟨(h.noticed t ht).1, fun held => (h.noticed t ht).2 (same ▸ held)⟩
    · exact .inl (same ▸ ht)
  | @gaveUp r p ticket =>
    have left : (n.acks.cancel ticket).registered.Sublist n.acks.registered := by
      rw [AckRegistry.registered_cancel]
      exact List.filter_sublist
    refine ⟨⟨h.own, h.other, h.once.sublist left, fun t ht => ?_, fun t ht => ?_⟩, rfl, List.Subset.refl _, Nat.le_refl _,
      fun t ht => ?_⟩
    · exact h.given t (left.subset ht)
    · exact ⟨(h.noticed t ht).1, fun held => (h.noticed t ht).2 (left.subset held)⟩
    · exact .inl (left.subset ht)

theorem tidy_of_perform (perform : step ∈ n.perform now a) (h : n.books.Tidy) :
    step.node.books.Tidy ∧ n.books.Grows step.node.books := (entry_of_perform perform).tidy h

end Node

/-! ## Courses -/

/-- **What a task does from a node with a script**, until it is at another node with what is left of its script. -/
inductive Course : Node → List Action → List Deed → Node → List Action → Prop where
  | here {n : Node} {script : List Action} : Course n script [] n script
  | act {n n' : Node} {a : Action} {script script' : List Action} {now : Nat} {step : Step} {deeds : List Deed}
      (perform : step ∈ n.perform now a) (rest : Course step.node (step.next ++ script) deeds n' script') :
      Course n (a :: script) (⟨n, a, step⟩ :: deeds) n' script'
  /-- Whatever else happens to the node. -/
  | meanwhile {n m n' : Node} {script script' : List Action} {deeds : List Deed} (tidy : m.books.Tidy)
      (change : n.books.Grows m.books) (rest : Course m script deeds n' script') : Course n script deeds n' script'

namespace Course

variable {n m n' : Node} {a : Action} {script script' script'' : List Action} {deeds deeds' : List Deed} {d : Deed}

theorem trans (h : Course n script deeds m script') (h' : Course m script' deeds' n' script'') :
    Course n script (deeds ++ deeds') n' script'' := by
  induction h with
  | here => exact h'
  | act perform _ ih => exact .act perform (ih h')
  | meanwhile tidy change _ ih => exact .meanwhile tidy change (ih h')

/-- **Along a course the books stay in order and grow.** -/
theorem tidy (h : Course n script deeds n' script') (first : n.books.Tidy) : n'.books.Tidy ∧ n.books.Grows n'.books := by
  induction h with
  | here => exact ⟨first, .refl _⟩
  | act perform _ ih =>
    obtain ⟨tidy, grows⟩ := Node.tidy_of_perform perform first
    exact ⟨(ih tidy).1, grows.trans (ih tidy).2⟩
  | meanwhile tidy change _ ih => exact ⟨(ih tidy).1, change.trans (ih tidy).2⟩

/-- So they are in order at every deed. -/
theorem tidy_of_mem (h : Course n script deeds n' script') (first : n.books.Tidy) (hd : d ∈ deeds) :
    d.node.books.Tidy ∧ n.books.Grows d.node.books := by
  induction h with
  | here => cases hd
  | act perform _ ih =>
    rcases List.mem_cons.1 hd with rfl | hd
    · exact ⟨first, .refl _⟩
    · obtain ⟨tidy, grows⟩ := Node.tidy_of_perform perform first
      exact ⟨(ih tidy hd).1, grows.trans (ih tidy hd).2⟩
  | meanwhile tidy change _ ih => exact ⟨(ih tidy hd).1, change.trans (ih tidy hd).2⟩

/-- **A deed of a course parts it** into what was done before and what is done after. -/
theorem split {before after : List Deed} (h : Course n script (before ++ d :: after) n' script') :
    ∃ now rest, Course n script before d.node (d.action :: rest) ∧ d.step ∈ d.node.perform now d.action ∧
      Course d.step.node (d.step.next ++ rest) after n' script' := by
  generalize hdeeds : before ++ d :: after = deeds at h
  induction h generalizing before with
  | here => cases before <;> cases hdeeds
  | @act _ _ _ _ _ now _ _ perform rest ih =>
    cases before with
    | nil =>
      obtain ⟨rfl, rfl⟩ := List.cons.inj hdeeds
      exact ⟨now, _, .here, perform, rest⟩
    | cons d' before =>
      obtain ⟨rfl, later⟩ := List.cons.inj hdeeds
      obtain ⟨now', rest', first, perform', last⟩ := ih later
      exact ⟨now', rest', .act perform first, perform', last⟩
  | meanwhile tidy change _ ih =>
    obtain ⟨now, rest, first, perform, last⟩ := ih hdeeds
    exact ⟨now, rest, .meanwhile tidy change first, perform, last⟩

/-- **A task that has something to do** has not done it yet, or this is what it does first. -/
theorem first_of_cons (h : Course n (a :: script) deeds n' script') : deeds = [] ∧ script' = a :: script ∨
    ∃ m step rest now, deeds = ⟨m, a, step⟩ :: rest ∧ step ∈ m.perform now a ∧
      Course step.node (step.next ++ script) rest n' script' := by
  generalize hscript : a :: script = todo at h
  induction h with
  | here => exact .inl ⟨rfl, rfl⟩
  | act perform rest _ =>
    obtain ⟨rfl, rfl⟩ := List.cons.inj hscript
    exact .inr ⟨_, _, _, _, rfl, perform, rest⟩
  | meanwhile _ _ _ ih => exact ih hscript

theorem first_of_ended (h : Course n (a :: script) deeds n' []) : ∃ m step rest now, deeds = ⟨m, a, step⟩ :: rest ∧
    step ∈ m.perform now a ∧ Course step.node (step.next ++ script) rest n' [] :=
  h.first_of_cons.resolve_left fun unfinished => nomatch unfinished.2

theorem eq_nil (h : Course n [] deeds n' script') : deeds = [] ∧ script' = [] := by
  generalize hscript : [] = todo at h
  induction h with
  | here => exact ⟨rfl, rfl⟩
  | act => cases hscript
  | meanwhile _ _ _ ih => exact ih hscript

/-! ## Playing a course -/

/-- The task takes its next action, or something else happens. -/
inductive Beat where
  | act (now : Nat)
  | meanwhile (change : Node → Node)

/-- The course of a schedule, where the first step of each action is taken. -/
def play? : List Beat → Node → List Action → Option (List Deed × Node × List Action)
  | [], n, script => some ([], n, script)
  | .act now :: beats, n, a :: script =>
    (n.perform now a).head?.bind fun step =>
      (play? beats step.node (step.next ++ script)).map fun x => (⟨n, a, step⟩ :: x.1, x.2)
  | .act _ :: _, _, [] => none
  | .meanwhile change :: beats, n, script =>
    if (change n).books.Tidy ∧ n.books.Grows (change n).books then play? beats (change n) script else none

theorem course_of_play? {beats : List Beat} (h : play? beats n script = some (deeds, n', script')) :
    Course n script deeds n' script' := by
  induction beats generalizing n script deeds with
  | nil =>
    obtain ⟨rfl, rfl, rfl⟩ : [] = deeds ∧ n = n' ∧ script = script' := by simpa [play?] using h
    exact .here
  | cons beat beats ih =>
    cases beat with
    | act now =>
      cases script with
      | nil => cases h
      | cons a script =>
        obtain ⟨step, first, h⟩ := Option.bind_eq_some_iff.1 h
        obtain ⟨⟨later, n'', script''⟩, played, h⟩ := Option.map_eq_some_iff.1 h
        cases h
        exact .act (List.mem_of_mem_head? first) (ih played)
    | meanwhile change =>
      rw [play?] at h
      split at h
      · rename_i ok
        exact .meanwhile ok.1 ok.2 (ih h)
      · cases h

end Course

/-! ## The tasks of a machine -/

namespace Machine

variable {m m' : Machine} {e : Event} {out : List Packet} {c : Config} {k : Nat} {script : List Action}
  {allowed : Machine → Event → Machine → Prop}

theorem Fresh.tidy (fresh : m.Fresh c) : m.node.books.Tidy := by
  obtain ⟨address, _, _, _, hnew, -⟩ := fresh
  obtain ⟨own, other⟩ := PeerSet.own_new address c.bootstrapPeers
  rw [Node.books_new hnew]
  refine ⟨own, ?_, List.nodup_nil, fun _ ht => (nomatch ht), fun _ ht => (nomatch ht)⟩
  rw [PeerSet.all, SortedSet.mem_toList, Bool.not_eq_true]
  exact other

/-- **Every turn keeps the books in order**, also those of other tasks and of none. -/
theorem Turn.tidy (turn : m.Turn e out m') (h : m.node.books.Tidy) :
    m'.node.books.Tidy ∧ m.node.books.Grows m'.node.books := by
  have same {n' : Node} (books : n'.books = m.node.books) : n'.books.Tidy ∧ m.node.books.Grows n'.books := by
    rw [books]
    exact ⟨h, .refl _⟩
  cases turn with
  | act perform => exact Node.tidy_of_perform perform h
  | @call n _ q =>
    rcases n.books_answer q with books | ⟨p, books⟩
    · exact same books
    · rw [books]
      exact ⟨h.learn p, .learn _ p⟩
  | arrive arrives => exact same (Node.books_arrive arrives)
  | closeInbox => exact same rfl
  | shutdown => exact same (Node.books_shutdown _)

theorem Run.tidy (h : Run allowed c m) : m.node.books.Tidy := by
  induction h with
  | start fresh => exact fresh.tidy
  | turn _ turn _ _ ih => exact (turn.tidy ih).1

/-- A turn by which the node is not shut down. -/
def Goes (m m' : Machine) : Prop := ∃ e out, m.Turn e out m' ∧ e ≠ .shutdown

/-- **In a turn a task takes its next action, or something else happens**; it stays where it is in the list of tasks. -/
theorem Goes.course (h : m.Goes m') (tidy : m.node.books.Tidy) (task : m.tasks[k]? = some script) :
    ∃ deeds script', Course m.node script deeds m'.node script' ∧ m'.tasks[k]? = some script' := by
  obtain ⟨e, out, turn, up⟩ := h
  have kept (stays : m'.tasks[k]? = some script) :
      ∃ deeds script', Course m.node script deeds m'.node script' ∧ m'.tasks[k]? = some script' :=
    ⟨[], script, .meanwhile (turn.tidy tidy).1 (turn.tidy tidy).2 .here, stays⟩
  obtain ⟨bound, -⟩ := List.getElem?_eq_some_iff.1 task
  cases turn with
  | @act n before after a rest now step perform =>
    dsimp only at task bound kept ⊢
    by_cases own : k = before.length
    · subst own
      rw [List.getElem?_append_right (Nat.le_refl _), Nat.sub_self, List.getElem?_cons_zero] at task
      obtain rfl := Option.some.inj task
      exact ⟨_, _, .act perform .here, by simp⟩
    · refine kept ?_
      rw [List.append_assoc]
      rcases Nat.lt_or_gt_of_ne own with less | more
      · rwa [List.getElem?_append_left less] at task ⊢
      · obtain ⟨j, hj⟩ : ∃ j, k - before.length = j + 1 := ⟨k - before.length - 1, by omega⟩
        rw [List.getElem?_append_right (by omega), hj] at task ⊢
        rw [List.cons_append, List.getElem?_cons_succ, List.getElem?_append_left]
        · exact task
        · simp only [List.length_append, List.length_cons] at bound
          omega
  | call => exact kept ((List.getElem?_append_left bound).trans task)
  | arrive | closeInbox => exact kept task
  | shutdown => exact absurd rfl up

/-- **Every task of a machine takes a course**, whatever the others do and whatever happens from outside. -/
theorem course_of_later (tidy : m.node.books.Tidy) (later : Relation.ReflTransGen Goes m m')
    (task : m.tasks[k]? = some script) :
    ∃ deeds script', Course m.node script deeds m'.node script' ∧ m'.tasks[k]? = some script' := by
  induction later with
  | refl => exact ⟨[], script, .here, task⟩
  | tail _ turn ih =>
    obtain ⟨deeds, script', before, task'⟩ := ih
    obtain ⟨deeds', script'', after, task''⟩ := turn.course (before.tidy tidy).1 task'
    exact ⟨deeds ++ deeds', script'', before.trans after, task''⟩

end Machine
end GossipNode
