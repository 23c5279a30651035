import Mathlib.Algebra.Order.BigOperators.Group.List
import Mathlib.Algebra.Order.Ring.Nat
import Mathlib.Data.List.Perm.Subperm
import GossipNode.Proofs.Wire.Readings
/-!
# The largest forms

How long the form of a record is depends on its number, its clock and its proof only a little: each record is no longer
than the one that carries the last number, a report of every origin there is, and a proof of 32 octets.  So a text, a
transaction or a ballot can be checked once, before anything is known of the record that it will go into.
-/
namespace GossipNode

/-- The last number that a record may carry. -/
def SequenceId.last : SequenceId := 0xFFFFFFFF

/-- The report of these origins with the last number of each. -/
def StatusReport.full (names : List Origin) : StatusReport := ⟨names.map (fun o => ⟨o, SequenceId.last⟩)⟩

namespace Packet

def largestRumor (o : Origin) (text : String) : Packet := .rumor ⟨o, SequenceId.last, text⟩

def largestProposal (o : Origin) (tx : Transaction) (clock : Option StatusReport) : Packet :=
  .proposal ⟨o, SequenceId.last, some SequenceId.last, Word256.zero, tx, clock⟩

def largestBlock (o : Origin) (topic : String) (ballot : Ballot) : Packet :=
  .block ⟨o, SequenceId.last, ⟨Word256.zero, Word256.zero, 0xFFFFFFFFFFFFFFFF, SequenceId.last, o, topic, some ballot⟩,
    ⟨Word256.zero, List.replicate 32 0⟩⟩

end Packet

namespace Wire.Format

theorem length_word32_le_last (n : UInt32) : (word32.write n).length ≤ (word32.write SequenceId.last).length :=
  length_word32_mono (UInt32.le_iff_toNat_le.2 (Nat.le_of_lt_succ n.toNat_lt))

theorem length_number_le_last (n : UInt64) :
    (number.write n).length ≤ (number.write 0xFFFFFFFFFFFFFFFF).length := by
  have le : n.toNat ≤ (0xFFFFFFFFFFFFFFFF : UInt64).toNat := Nat.le_of_lt_succ n.toNat_lt
  exact length_writeNumber_mono le

theorem length_option_le {α : Type} {f : Format α} {o o' : Option α}
    (h : ∀ a ∈ o, ∃ a' ∈ o', (f.write a).length ≤ (f.write a').length) :
    ((option f).write o).length ≤ ((option f).write o').length := by
  cases o with
  | none => cases o' <;> simp [option]
  | some a =>
    obtain ⟨a', rfl, hle⟩ := h a rfl
    exact Nat.succ_le_succ hle

theorem length_count_mono {m n : Nat} (hn : n < UInt64.size) (h : m ≤ n) :
    (writeNumber (UInt64.ofNat m)).length ≤ (writeNumber (UInt64.ofNat n)).length := by
  refine length_writeNumber_mono ?_
  rw [toNat_count hn, toNat_count (Nat.lt_of_le_of_lt h hn)]
  exact h

/-! ## Reports -/

theorem length_statusReport (r : StatusReport) : (statusReport.write r).length =
    (writeNumber (UInt64.ofNat r.want.length)).length + (r.want.map (fun e => (statusEntry.write e).length)).sum := by
  simp only [statusReport, iso, list, List.length_append, List.length_flatMap]

/-- Every entry of a report takes an octet. -/
theorem length_want_le (r : StatusReport) : r.want.length ≤ (statusReport.write r).length := by
  have := composed_statusEntry.faithful.length_le_flatMap r.want
  simp only [statusReport, iso, list, List.length_append]
  omega

theorem length_statusEntry_le_last (e : StatusEntry) :
    (statusEntry.write e).length ≤ (statusEntry.write ⟨e.identifier, SequenceId.last⟩).length := by
  have := length_word32_le_last e.nextId
  simp only [statusEntry, iso, seq, List.length_append]
  omega

/-- **A report that names each of some origins once** is no longer than the full one of all of them. -/
theorem length_statusReport_le_full {r : StatusReport} {names : List Origin} (few : names.length < UInt64.size)
    (nodup : (r.want.map StatusEntry.identifier).Nodup) (subset : ∀ e ∈ r.want, e.identifier ∈ names) :
    (statusReport.write r).length ≤ (statusReport.write (.full names)).length := by
  have within : (r.want.map StatusEntry.identifier).Subperm names :=
    nodup.subperm (fun o ho => by obtain ⟨e, he, rfl⟩ := List.mem_map.1 ho; exact subset e he)
  have count : r.want.length ≤ names.length := by simpa using within.length_le
  have entries : (r.want.map (fun e => (statusEntry.write e).length)).sum ≤
      (names.map (fun o => (statusEntry.write ⟨o, SequenceId.last⟩).length)).sum :=
    calc (r.want.map (fun e => (statusEntry.write e).length)).sum
        ≤ (r.want.map (fun e => (statusEntry.write ⟨e.identifier, SequenceId.last⟩).length)).sum :=
          List.sum_le_sum (fun e _ => length_statusEntry_le_last e)
      _ = ((r.want.map StatusEntry.identifier).map
            (fun o => (statusEntry.write ⟨o, SequenceId.last⟩).length)).sum := by rw [List.map_map]; rfl
      _ ≤ _ := by
          obtain ⟨l, hperm, hsub⟩ := within
          rw [← (hperm.map _).sum_eq]
          exact (hsub.map _).sum_le_sum (fun _ _ => Nat.zero_le _)
  rw [length_statusReport, length_statusReport]
  simp only [StatusReport.full, List.length_map, List.map_map, Function.comp_def] at entries ⊢
  have := length_count_mono few count
  omega

/-! ## Records -/

theorem length_rumor_le (o : Origin) (id : SequenceId) (text : String) :
    (packet.write (.rumor ⟨o, id, text⟩)).length ≤ (packet.write (.largestRumor o text)).length := by
  have number := length_word32_le_last id
  simp only [packet, writePacket, Packet.largestRumor, rumor, iso, seq, List.length_cons, List.length_append]
  omega

theorem length_proposal_le (o : Origin) (id : SequenceId) (confirmed : Option SequenceId) (prev : Word256)
    (tx : Transaction) {clock clock' : Option StatusReport}
    (h : ((option statusReport).write clock).length ≤ ((option statusReport).write clock').length) :
    (packet.write (.proposal ⟨o, id, confirmed, prev, tx, clock⟩)).length ≤
      (packet.write (.largestProposal o tx clock')).length := by
  have number := length_word32_le_last id
  have confirms : ((option word32).write confirmed).length ≤ ((option word32).write (some SequenceId.last)).length :=
    length_option_le (fun n _ => ⟨_, rfl, length_word32_le_last n⟩)
  simp only [packet, writePacket, Packet.largestProposal, proposal, word256, iso, seq, List.length_cons,
    List.length_append, Word256.length_octets]
  omega

theorem length_block_le {m : BlockAnnouncement} {ballot : Ballot} (origin : m.block.origin = m.origin)
    (some : m.block.ballot = some ballot) (tag : m.proof.tag.length ≤ 32) :
    (packet.write (.block m)).length ≤ (packet.write (.largestBlock m.origin m.block.topic ballot)).length := by
  have number := length_word32_le_last m.id
  have fitness := length_number_le_last m.block.fitness
  have round := length_word32_le_last m.block.round
  have count := length_count_mono (show 32 < UInt64.size by decide) tag
  simp only [packet, writePacket, Packet.largestBlock, announcement, block, proof, word256, octets, iso, seq,
    List.length_cons, List.length_append, Word256.length_octets, origin, some, List.length_replicate]
  omega

/-- A heartbeat is no longer than a report that names its origin. -/
theorem length_heartbeat_le {o : Origin} {names : List Origin} (h : o ∈ names) :
    (packet.write (.largestRumor o "")).length ≤ (packet.write (.status (.full names))).length := by
  have entry : (statusEntry.write ⟨o, SequenceId.last⟩).length ≤
      ((StatusReport.full names).want.map (fun e => (statusEntry.write e).length)).sum :=
    List.le_sum_of_mem (List.mem_map_of_mem (List.mem_map_of_mem h))
  have count : 0 < (writeNumber (UInt64.ofNat (StatusReport.full names).want.length)).length :=
    List.length_pos_iff.2 (writeNumber_ne_nil _)
  have none : (text.write "").length = 1 := rfl
  have names : (statusEntry.write ⟨o, SequenceId.last⟩).length =
      (origin.write o).length + (word32.write SequenceId.last).length := List.length_append
  simp only [packet, writePacket, Packet.largestRumor, rumor, iso, seq, List.length_cons, List.length_append, none,
    length_statusReport]
  omega

end Wire.Format

theorem Wire.Sendable.of_le {p q : Packet} (h : Sendable q)
    (le : (Format.packet.write p).length ≤ (Format.packet.write q).length) : Sendable p :=
  sendable_iff.2 (Nat.le_trans (Nat.succ_le_succ le) (sendable_iff.1 h))

/-- So few origins that their count fits its word have a full report with a datagram. -/
theorem Wire.Sendable.few {names : List Origin} (h : Sendable (.status (.full names))) :
    names.length < UInt64.size := by
  have fits := sendable_iff.1 h
  have count := Format.length_want_le (.full names)
  simp only [Format.packet, Format.writePacket, List.length_cons, StatusReport.full, List.length_map, maxSize] at fits count
  exact Nat.lt_of_le_of_lt (show names.length ≤ 9216 by omega) (by decide)

end GossipNode
