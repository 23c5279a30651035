import GossipNode.Wire.Packet
/-!
# How the formats of messages are composed

The format of a message is composed of those of numbers, octets and texts (`Format.Composed`), so a law that these have
and that the combinators keep is one of every message, by induction on how it is composed.  A packet is its kind and then
the fields of that kind, each kind with a message's format (`Format.Fields`).
-/
namespace GossipNode.Wire.Format

variable {α β : Type} {f : Format α}

/-- **A format that is composed by the combinators**; a change of representation loses nothing, there and back. -/
inductive Composed : {α : Type} → Format α → Prop where
  | number : Composed number
  | word32 : Composed word32
  | word256 : Composed word256
  | octets : Composed octets
  | text : Composed text
  | seq {α β : Type} {f : Format α} {g : Format β} (hf : Composed f) (hg : Composed g) : Composed (f.seq g)
  | iso {α β : Type} {f : Format α} {into : α → β} {back : β → α} (hf : Composed f) (hback : ∀ b, into (back b) = b)
    (hinto : ∀ a, back (into a) = a) : Composed (f.iso into back)
  | option {α : Type} {f : Format α} (hf : Composed f) : Composed (option f)
  | list {α : Type} {f : Format α} (hf : Composed f) : Composed (list f)

/-! ## Messages -/

theorem composed_origin : origin.Composed := .iso .text (fun _ => rfl) (fun _ => rfl)

theorem composed_statusEntry : statusEntry.Composed :=
  .iso (.seq composed_origin .word32) (fun _ => rfl) (fun _ => rfl)

theorem composed_statusReport : statusReport.Composed :=
  .iso (.list composed_statusEntry) (fun _ => rfl) (fun _ => rfl)

theorem composed_rumor : rumor.Composed :=
  .iso (.seq composed_origin (.seq .word32 .text)) (fun _ => rfl) (fun _ => rfl)

theorem composed_privateMessage : privateMessage.Composed :=
  .iso (.seq composed_origin (.seq .word32 (.seq .text (.seq composed_origin .word32)))) (fun _ => rfl) (fun _ => rfl)

theorem composed_dataRequest : dataRequest.Composed :=
  .iso (.seq composed_origin (.seq composed_origin (.seq .word32 .octets))) (fun _ => rfl) (fun _ => rfl)

theorem composed_dataReply : dataReply.Composed :=
  .iso (.seq composed_origin (.seq composed_origin (.seq .word32 (.seq .octets .octets)))) (fun _ => rfl) (fun _ => rfl)

theorem composed_searchRequest : searchRequest.Composed :=
  .iso (.seq composed_origin (.seq .number (.list .text))) (fun _ => rfl) (fun _ => rfl)

theorem composed_searchResult : searchResult.Composed :=
  .iso (.seq .text (.seq .octets (.seq (.list .number) .number))) (fun _ => rfl) (fun _ => rfl)

theorem composed_searchReply : searchReply.Composed :=
  .iso (.seq composed_origin (.seq composed_origin (.seq .word32 (.list composed_searchResult)))) (fun _ => rfl)
    (fun _ => rfl)

theorem composed_transaction : transaction.Composed :=
  .iso (.seq .text (.seq .number .octets)) (fun _ => rfl) (fun _ => rfl)

theorem composed_proposal : proposal.Composed :=
  .iso (.seq composed_origin (.seq .word32 (.seq (.option .word32) (.seq .word256 (.seq composed_transaction
    (.option composed_statusReport)))))) (fun _ => rfl) (fun _ => rfl)

theorem composed_ack : ack.Composed :=
  .iso (.seq composed_origin (.seq .word32 (.seq composed_origin .word32))) (fun _ => rfl) (fun _ => rfl)

theorem composed_ballot : ballot.Composed := .iso (.seq .text (.seq .text .text)) (fun _ => rfl) (fun _ => rfl)

theorem composed_block : block.Composed :=
  .iso (.seq .word256 (.seq .word256 (.seq .number (.seq .word32 (.seq composed_origin (.seq .text
    (.option composed_ballot))))))) (fun _ => rfl) (fun _ => rfl)

theorem composed_proof : proof.Composed := .iso (.seq .word256 .octets) (fun _ => rfl) (fun _ => rfl)

theorem composed_announcement : announcement.Composed :=
  .iso (.seq composed_origin (.seq .word32 (.seq composed_block composed_proof))) (fun _ => rfl) (fun _ => rfl)

/-! ## Packets -/

/-- The fields of a kind of packets: the format of their message, and the packet that is made of it. -/
inductive Fields : UInt8 → {α : Type} → Format α → (α → Packet) → Prop where
  | rumor : Fields 0 rumor .rumor
  | status : Fields 1 statusReport .status
  | private_ : Fields 2 privateMessage .private_
  | dataRequest : Fields 3 dataRequest .dataRequest
  | dataReply : Fields 4 dataReply .dataReply
  | searchRequest : Fields 5 searchRequest .searchRequest
  | searchReply : Fields 6 searchReply .searchReply
  | proposal : Fields 7 proposal .proposal
  | ack : Fields 8 ack .ack
  | block : Fields 9 announcement .block

namespace Fields

variable {kind : UInt8} {wrap : α → Packet}

theorem composed (h : Fields kind f wrap) : f.Composed := by
  cases h with
  | rumor => exact composed_rumor
  | status => exact composed_statusReport
  | private_ => exact composed_privateMessage
  | dataRequest => exact composed_dataRequest
  | dataReply => exact composed_dataReply
  | searchRequest => exact composed_searchRequest
  | searchReply => exact composed_searchReply
  | proposal => exact composed_proposal
  | ack => exact composed_ack
  | block => exact composed_announcement

theorem kind_lt (h : Fields kind f wrap) : kind < 251 := by
  cases h <;> decide

/-- **A packet is written as its kind and its message.** -/
theorem write_eq (h : Fields kind f wrap) (m : α) : packet.write (wrap m) = kind :: f.write m := by
  cases h <;> rfl

/-- **The fields of a kind are read as a message.** -/
theorem read_eq (h : Fields kind f wrap) :
    readFields kind.toUInt32 = fun bs => (f.read bs).map fun (m, r) => (wrap m, r) := by
  cases h <;> rfl

end Fields

/-- **Every packet is made of a message.** -/
theorem exists_fields (p : Packet) :
    ∃ (kind : UInt8) (α : Type) (f : Format α) (wrap : α → Packet) (m : α), Fields kind f wrap ∧ wrap m = p := by
  cases p with
  | rumor m => exact ⟨_, _, _, _, m, .rumor, rfl⟩
  | status m => exact ⟨_, _, _, _, m, .status, rfl⟩
  | private_ m => exact ⟨_, _, _, _, m, .private_, rfl⟩
  | dataRequest m => exact ⟨_, _, _, _, m, .dataRequest, rfl⟩
  | dataReply m => exact ⟨_, _, _, _, m, .dataReply, rfl⟩
  | searchRequest m => exact ⟨_, _, _, _, m, .searchRequest, rfl⟩
  | searchReply m => exact ⟨_, _, _, _, m, .searchReply, rfl⟩
  | proposal m => exact ⟨_, _, _, _, m, .proposal, rfl⟩
  | ack m => exact ⟨_, _, _, _, m, .ack, rfl⟩
  | block m => exact ⟨_, _, _, _, m, .block, rfl⟩

/-- **Only kinds that have fields are read.** -/
theorem fields_of_read {kind : UInt32} {bs rest : Bytes} {p : Packet} (h : readFields kind bs = .ok (p, rest)) :
    ∃ (k : UInt8) (α : Type) (f : Format α) (wrap : α → Packet), Fields k f wrap ∧ k.toUInt32 = kind := by
  have known (k : UInt8) (hk : kind.toNat = k.toNat) : k.toUInt32 = kind :=
    UInt32.toNat_inj.1 (by rw [hk, UInt8.toNat_toUInt32])
  unfold readFields at h
  generalize hk : kind.toNat = k at h
  split at h
  · exact ⟨_, _, _, _, .rumor, known 0 hk⟩
  · exact ⟨_, _, _, _, .status, known 1 hk⟩
  · exact ⟨_, _, _, _, .private_, known 2 hk⟩
  · exact ⟨_, _, _, _, .dataRequest, known 3 hk⟩
  · exact ⟨_, _, _, _, .dataReply, known 4 hk⟩
  · exact ⟨_, _, _, _, .searchRequest, known 5 hk⟩
  · exact ⟨_, _, _, _, .searchReply, known 6 hk⟩
  · exact ⟨_, _, _, _, .proposal, known 7 hk⟩
  · exact ⟨_, _, _, _, .ack, known 8 hk⟩
  · exact ⟨_, _, _, _, .block, known 9 hk⟩
  · cases h

end GossipNode.Wire.Format
