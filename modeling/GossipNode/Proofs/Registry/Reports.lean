import Mathlib.Data.List.Basic
import GossipNode.AckRegistry
/-!
# What one report does to a registry

A report is applied entry by entry, each entry to what the ones before it left.  As no two entries name one origin, the
whole report does the same as looking at every registration once: `Registration.notice?` says which notice it gets, if
any.  Those that get one are gone (`pending_onStatus`), each of them is notified once (`sent_onStatus`), and what is
known of the peer is what it reported last (`lastKnown_onStatus`).
-/
namespace GossipNode

/-- **The notice that a registration gets** from what a peer reports, when it last reported `last` for the origin: the
peer has to be its own, and the number from `last` on and before what is reported now. -/
def Registration.notice? (r : Registration) (last : SequenceId) (peer : PeerAddress)
    (entries : List (Origin × SequenceId)) (inSync : Bool) : Option Notice :=
  if r.peer = peer then
    ((SortedMap.lookup r.origin entries).filter (fun next => last ≤ r.id && r.id < next)).map (⟨·, inSync⟩)
  else none

namespace AckRegistry

variable {g : AckRegistry} {peer p : PeerAddress} {inSync : Bool} {o : Origin} {next : SequenceId}
  {es : List (Origin × SequenceId)} {r : Registration}

/-! ## One entry -/

def afterEntry (g : AckRegistry) (peer : PeerAddress) (e : Origin × SequenceId) : AckRegistry :=
  { g with
    pending := g.pending.filter (fun r => !covers peer e.1 (g.lastKnown peer e.1) e.2 r)
    known := g.known.alter peer (fun v => (v.getD ∅).insert e.1 e.2) }

theorem onEntry_eq (sent : List (Registration × Notice)) (g : AckRegistry) (e : Origin × SequenceId) :
    onEntry peer inSync (sent, g) e =
      (sent ++ (g.pending.filter (covers peer e.1 (g.lastKnown peer e.1) e.2)).map (fun r => (r, ⟨e.2, inSync⟩)),
        g.afterEntry peer e) := rfl

theorem lastKnown_afterEntry (g : AckRegistry) (peer p : PeerAddress) (e : Origin × SequenceId) (o : Origin) :
    (g.afterEntry peer e).lastKnown p o = if p = peer ∧ o = e.1 then e.2 else g.lastKnown p o := by
  unfold lastKnown StatusVector.next afterEntry
  rw [SortedMap.get?_alter]
  by_cases hp : p = peer
  · rw [if_pos hp, Option.getD_some, SortedMap.get?_insert_eq_ite, hp]
    by_cases ho : o = e.1
    · rw [if_pos ho, if_pos ⟨rfl, ho⟩]
      rfl
    · rw [if_neg ho, if_neg (fun h => ho h.2)]
  · rw [if_neg hp, if_neg (fun h => hp h.1)]

def noticeFrom? (g : AckRegistry) (peer : PeerAddress) (inSync : Bool) (es : List (Origin × SequenceId))
    (r : Registration) : Option Notice :=
  r.notice? (g.lastKnown peer r.origin) peer es inSync

/-- The first entry notifies what it covers. -/
theorem noticeFrom?_of_covers (h : covers peer o (g.lastKnown peer o) next r = true) :
    g.noticeFrom? peer inSync ((o, next) :: es) r = some ⟨next, inSync⟩ := by
  simp only [covers, Bool.and_eq_true, beq_iff_eq, decide_eq_true_eq] at h
  obtain ⟨⟨⟨hp, rfl⟩, last⟩, bound⟩ := h
  unfold noticeFrom? Registration.notice? SortedMap.lookup
  rw [if_pos hp, if_pos Std.ReflCmp.compare_self]
  simp [last, bound]

/-- What the first entry does not cover is left to the others, which name other origins. -/
theorem noticeFrom?_of_not_covers (others : ∀ e ∈ es, compare o e.1 ≠ .eq)
    (h : covers peer o (g.lastKnown peer o) next r = false) :
    g.noticeFrom? peer inSync ((o, next) :: es) r = (g.afterEntry peer (o, next)).noticeFrom? peer inSync es r := by
  unfold noticeFrom? Registration.notice?
  by_cases hp : r.peer = peer
  · rw [if_pos hp, if_pos hp, lastKnown_afterEntry]
    by_cases ho : r.origin = o
    · obtain rfl := ho
      have bare : SortedMap.lookup r.origin es = none := SortedMap.lookup_eq_none others
      simp only [covers, hp, BEq.rfl, Bool.true_and] at h
      rw [SortedMap.lookup, if_pos Std.ReflCmp.compare_self, bare, Option.filter_some, h]
      rfl
    · rw [SortedMap.lookup, if_neg (fun hc => ho (Std.LawfulEqCmp.eq_of_compare hc)), if_neg (fun h => ho h.2)]
  · rw [if_neg hp, if_neg hp]

/-! ## A whole report -/

/-- What the entries of a report have done to a registry, with the notices they have sent. -/
structure Applied (g : AckRegistry) (peer : PeerAddress) (inSync : Bool) (es : List (Origin × SequenceId))
    (sent : List (Registration × Notice)) (g' : AckRegistry) : Prop where
  sent : sent.Perm (g.pending.filterMap (fun r => (g.noticeFrom? peer inSync es r).map (r, ·)))
  pending : g'.pending = g.pending.filter (fun r => (g.noticeFrom? peer inSync es r).isNone)
  known : ∀ p o, g'.lastKnown p o = if p = peer then (SortedMap.lookup o es).getD (g.lastKnown p o) else g.lastKnown p o
  ticket : g'.nextTicket = g.nextTicket

theorem noticeFrom?_nil (g : AckRegistry) (peer : PeerAddress) (inSync : Bool) (r : Registration) :
    g.noticeFrom? peer inSync [] r = none := by
  unfold noticeFrom? Registration.notice?
  split <;> rfl

theorem Applied.nil (g : AckRegistry) (peer : PeerAddress) (inSync : Bool) : g.Applied peer inSync [] [] g where
  sent := by simp [noticeFrom?_nil]
  pending := (List.filter_eq_self.2 (fun r _ => by rw [noticeFrom?_nil]; rfl)).symm
  known p o := by split <;> rfl
  ticket := rfl

theorem Applied.cons {sent : List (Registration × Notice)} {g' : AckRegistry}
    (others : ∀ e ∈ es, compare o e.1 ≠ .eq)
    (h : (g.afterEntry peer (o, next)).Applied peer inSync es sent g') :
    g.Applied peer inSync ((o, next) :: es)
      ((g.pending.filter (covers peer o (g.lastKnown peer o) next)).map (fun r => (r, ⟨next, inSync⟩)) ++ sent) g' where
  sent := by
    -- the registrations are parted into those the first entry covers, and those it leaves
    have parted := (List.filter_append_perm (covers peer o (g.lastKnown peer o) next) g.pending).symm.filterMap
      (fun r => (g.noticeFrom? peer inSync ((o, next) :: es) r).map (r, ·))
    refine .trans ?_ parted.symm
    rw [List.filterMap_append]
    refine .append (.of_eq ?_) (h.sent.trans (.of_eq ?_))
    · rw [← List.filterMap_eq_map]
      refine List.filterMap_congr (fun r hr => ?_)
      rw [noticeFrom?_of_covers (List.mem_filter.1 hr).2]
      rfl
    · refine List.filterMap_congr (fun r hr => ?_)
      rw [noticeFrom?_of_not_covers others (by simpa using (List.mem_filter.1 hr).2)]
  pending := by
    rw [h.pending, afterEntry, List.filter_filter]
    refine List.filter_congr (fun r _ => ?_)
    cases hc : covers peer o (g.lastKnown peer o) next r with
    | true => rw [noticeFrom?_of_covers hc]; simp
    | false => rw [noticeFrom?_of_not_covers others hc]; simp; rfl
  known p o' := by
    rw [h.known, lastKnown_afterEntry]
    by_cases hp : p = peer
    · rw [if_pos hp, if_pos hp]
      by_cases ho : o' = o
      · rw [if_pos ⟨hp, ho⟩, SortedMap.lookup, ho, if_pos Std.ReflCmp.compare_self, SortedMap.lookup_eq_none others]
        rfl
      · rw [if_neg (fun h => ho h.2), SortedMap.lookup, if_neg (fun hc => ho (Std.LawfulEqCmp.eq_of_compare hc))]
    · rw [if_neg hp, if_neg hp, if_neg (fun h => hp h.1)]
  ticket := h.ticket

/-- **Entries of different origins**, one after the other. -/
theorem applied_foldl (peer : PeerAddress) (inSync : Bool) (asc : es.Pairwise (fun a b => compare a.1 b.1 = .lt))
    (g : AckRegistry) (before : List (Registration × Notice)) :
    ∃ sent g', es.foldl (onEntry peer inSync) (before, g) = (before ++ sent, g') ∧ g.Applied peer inSync es sent g' := by
  induction es generalizing g before with
  | nil => exact ⟨[], g, by simp, .nil g peer inSync⟩
  | cons e es ih =>
    obtain ⟨o, next⟩ := e
    rw [List.pairwise_cons] at asc
    obtain ⟨sent, g', done, applied⟩ := ih asc.2 (g.afterEntry peer (o, next))
      (before ++ (g.pending.filter (covers peer o (g.lastKnown peer o) next)).map (fun r => (r, ⟨next, inSync⟩)))
    refine ⟨_, g', ?_, .cons (fun e he => ?_) applied⟩
    · rw [List.foldl_cons, onEntry_eq, done, List.append_assoc]
    · rw [asc.1 e he]
      decide

theorem applied_onStatus (g : AckRegistry) (peer : PeerAddress) (v : StatusVector) (inSync : Bool) :
    g.Applied peer inSync v.entries (g.onStatus peer v inSync).1 (g.onStatus peer v inSync).2 := by
  obtain ⟨sent, g', done, applied⟩ := applied_foldl peer inSync v.ascending g []
  rw [onStatus, done]
  exact applied

/-- **What a peer is known to have reported** is the last it said of the origin. -/
theorem lastKnown_onStatus (g : AckRegistry) (peer p : PeerAddress) (v : StatusVector) (inSync : Bool) (o : Origin) :
    (g.onStatus peer v inSync).2.lastKnown p o =
      if p = peer then (SortedMap.get? v o).getD (g.lastKnown p o) else g.lastKnown p o :=
  (g.applied_onStatus peer v inSync).known p o

theorem nextTicket_onStatus (g : AckRegistry) (peer : PeerAddress) (v : StatusVector) (inSync : Bool) :
    (g.onStatus peer v inSync).2.nextTicket = g.nextTicket := (g.applied_onStatus peer v inSync).ticket

/-- **Those that get no notice stay**, in their order. -/
theorem pending_onStatus (g : AckRegistry) (peer : PeerAddress) (v : StatusVector) (inSync : Bool) :
    (g.onStatus peer v inSync).2.pending = g.pending.filter (fun r => (g.noticeFrom? peer inSync v.entries r).isNone) :=
  (g.applied_onStatus peer v inSync).pending

/-- **Each of the others is notified**, once. -/
theorem sent_onStatus (g : AckRegistry) (peer : PeerAddress) (v : StatusVector) (inSync : Bool) :
    (g.onStatus peer v inSync).1.Perm
      (g.pending.filterMap (fun r => (g.noticeFrom? peer inSync v.entries r).map (r, ·))) :=
  (g.applied_onStatus peer v inSync).sent

theorem mem_sent_onStatus {v : StatusVector} {n : Notice} :
    (r, n) ∈ (g.onStatus peer v inSync).1 ↔ r ∈ g.pending ∧ g.noticeFrom? peer inSync v.entries r = some n := by
  rw [(g.sent_onStatus peer v inSync).mem_iff, List.mem_filterMap]
  constructor
  · rintro ⟨r', hr', h⟩
    obtain ⟨n', hn, he⟩ := Option.map_eq_some_iff.1 h
    obtain ⟨rfl, rfl⟩ := Prod.mk.inj he
    exact ⟨hr', hn⟩
  · rintro ⟨hr, hn⟩
    exact ⟨r, hr, by rw [hn]; rfl⟩

/-- **A report parts the registrations**: into those it notifies and those that stay. -/
theorem perm_onStatus (g : AckRegistry) (peer : PeerAddress) (v : StatusVector) (inSync : Bool) :
    ((g.onStatus peer v inSync).1.map Prod.fst ++ (g.onStatus peer v inSync).2.pending).Perm g.pending := by
  have notified : ((g.onStatus peer v inSync).1.map Prod.fst).Perm
      (g.pending.filter (fun r => !(g.noticeFrom? peer inSync v.entries r).isNone)) := by
    refine ((g.sent_onStatus peer v inSync).map Prod.fst).trans (.of_eq ?_)
    rw [List.map_filterMap, ← List.filterMap_eq_filter]
    refine List.filterMap_congr (fun r _ => ?_)
    cases h : g.noticeFrom? peer inSync v.entries r <;> simp [h, Option.guard]
  rw [pending_onStatus]
  refine (notified.append_right _).trans (List.perm_append_comm.trans ?_)
  exact List.filter_append_perm _ _

end AckRegistry
end GossipNode
