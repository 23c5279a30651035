import GossipNode.Proofs.Address.Parts
/-!
# Addresses survive text

The text of a socket address reads back as that address (`readIpv6_writeIpv6`, `ofText?_toText`).  What is written for the
zeros in the middle depends on the address, but not what is read for it: whichever run of zeros is left out, a `::` stands for
as many zeros as are missing from eight groups.  So two sockets have different addresses, and a text that is accepted may be
put for the one that is printed for the same socket.
-/
namespace GossipNode

namespace SocketAddress

open Number

/-! ## Runs of zeros -/

namespace ZeroRun

variable {run : ZeroRun} {gs : List UInt16}

/-- The groups have zeros where the run is. -/
def Within (run : ZeroRun) (gs : List UInt16) : Prop :=
  ∃ before after, gs = before ++ List.replicate run.length 0 ++ after ∧ before.length = run.start

/-- The groups end with the run. -/
def Ends (run : ZeroRun) (gs : List UInt16) : Prop :=
  ∃ before, gs = before ++ List.replicate run.length 0 ∧ before.length = run.start

theorem Ends.within (h : run.Ends gs) : run.Within gs := by
  obtain ⟨before, rfl, start⟩ := h
  exact ⟨before, [], (List.append_nil _).symm, start⟩

theorem Within.append (h : run.Within gs) (more : List UInt16) : run.Within (gs ++ more) := by
  obtain ⟨before, after, rfl, start⟩ := h
  exact ⟨before, after ++ more, List.append_assoc _ _ _, start⟩

theorem Within.better {best : ZeroRun} (h : run.Within gs) (hbest : best.Within gs) :
    (if run.length > best.length then run else best).Within gs := by
  split
  · exact h
  · exact hbest

theorem ends_single (gs : List UInt16) : Ends ⟨gs.length, 1⟩ (gs ++ [0]) := ⟨gs, rfl, rfl⟩

theorem Ends.concat (h : run.Ends gs) : Ends ⟨run.start, run.length + 1⟩ (gs ++ [0]) := by
  obtain ⟨before, rfl, start⟩ := h
  exact ⟨before, by rw [List.replicate_succ', List.append_assoc], start⟩

end ZeroRun

/-- **The run that is left out has only zeros.** -/
theorem within_longestRun {seen left : List UInt16} {run best : ZeroRun} (hrun : run.length ≠ 0 → run.Ends seen)
    (hbest : best.Within seen) : (longestRun seen.length run best left).Within (seen ++ left) := by
  -- the open run ends what has been seen, the best one is somewhere in it
  induction left generalizing seen run best with
  | nil =>
    rw [List.append_nil]
    exact hbest
  | cons g left ih =>
    rw [List.append_cons]
    have step {run best : ZeroRun} := @ih (seen ++ [g]) run best
    rw [List.length_append, List.length_singleton] at step
    unfold longestRun
    split
    · rename_i zero
      subst zero
      have longer : ZeroRun.Ends (if run.length = 0 then ⟨seen.length, 1⟩ else ⟨run.start, run.length + 1⟩) (seen ++ [0]) := by
        split
        · exact ZeroRun.ends_single seen
        · rename_i nonempty
          exact (hrun nonempty).concat
      exact step (fun _ => longer) (longer.within.better (hbest.append [0]))
    · exact step (fun h => absurd rfl h) (hbest.append [g])

/-! ## The groups of an address -/

theorem quadGroups_octets (h l : UInt16) :
    quadGroups ⟨(h >>> 8).toUInt8, h.toUInt8, (l >>> 8).toUInt8, l.toUInt8⟩ = [h, l] := by
  have join (g : UInt16) : (g >>> 8).toUInt8.toUInt16 <<< 8 ||| g.toUInt8.toUInt16 = g := by
    have high : g.toNat < 2 ^ 16 := g.toNat_lt
    have value : (((g >>> 8).toUInt8.toUInt16 <<< 8).toNat) = g.toNat / 2 ^ 8 * 2 ^ 8 := by
      simp [Nat.shiftRight_eq_div_pow, Nat.shiftLeft_eq]
      omega
    have low : g.toUInt8.toUInt16.toNat = g.toNat % 2 ^ 8 := by simp
    rw [← UInt16.toNat_inj, UInt16.toNat_or, value, low, ← Nat.shiftLeft_eq,
      ← Nat.shiftLeft_add_eq_or_of_lt (Nat.mod_lt _ (Nat.two_pow_pos 8)), Nat.shiftLeft_eq]
    omega
  rw [quadGroups, join, join]

theorem spread_eq {ip : Ipv6} {head tail : List UInt16} {n : Nat}
    (h : ip.toList = head ++ List.replicate n 0 ++ tail) : spread head tail = ip := by
  have length : head.length + n + tail.length = 8 := by
    have := congrArg List.length h
    simp at this
    omega
  obtain rfl : 8 - head.length - tail.length = n := by omega
  rw [spread, ← h]
  refine Vector.ext (fun i hi => ?_)
  simp

/-- The groups of a mapped address are those of its quad after six of fixed value. -/
theorem toList_of_mappedQuad? {ip : Ipv6} {q : Ipv4} (h : mappedQuad? ip = some q) :
    ip.toList = [0, 0, 0, 0, 0, 0xFFFF] ++ quadGroups q := by
  unfold mappedQuad? at h
  split at h
  · rename_i hi lo last
    split at h
    · rename_i first
      obtain rfl := Option.some.inj h
      rw [quadGroups_octets, ← first, ← last, List.take_append_drop]
    · cases h
  · cases h

/-! ## Addresses of the sixth version -/

/-- What follows the groups of an address between brackets. -/
def EndsGroups (rest : List Char) : Prop := ∃ c r, rest = c :: r ∧ (c = '%' ∨ c = ']')

section

variable {rest : List Char}

theorem EndsGroups.endsGroup (h : EndsGroups rest) : EndsGroup rest := by
  obtain ⟨c, r, rfl, rfl | rfl⟩ := h <;> exact fun c hc => by rw [← Option.some.inj hc]; decide

theorem EndsGroups.stop (h : EndsGroups rest) (first : Bool) : ∀ r ∈ afterColon first rest, EndsNumeral r := by
  intro r hr
  cases first with
  | true => exact Option.some.inj hr ▸ h.endsGroup.endsNumeral
  | false =>
    obtain ⟨c, r', rfl, rfl | rfl⟩ := h <;> cases hr

theorem stop_colons (first : Bool) (rest : List Char) :
    ∀ r ∈ afterColon first (':' :: ':' :: rest), EndsNumeral r := by
  intro r hr
  cases first <;> exact Option.some.inj hr ▸ (endsGroup_colon _).endsNumeral

/-- Groups before a gap. -/
theorem readGroups_colons {gs : List UInt16} {room : Nat} (h : gs.length ≤ room) (rest : List Char) :
    readGroups true room (groupsText true gs ++ ':' :: ':' :: rest) = (gs, false, ':' :: ':' :: rest) := by
  rw [readGroups_append (endsGroup_colon _) true h, readGroups_stop (stop_colons _ rest)]
  simp

/-- Groups at the end. -/
theorem readGroups_last {gs : List UInt16} {room : Nat} (h : gs.length ≤ room) (hrest : EndsGroups rest) :
    readGroups true room (groupsText true gs ++ rest) = (gs, false, rest) := by
  rw [readGroups_append hrest.endsGroup true h, readGroups_stop (hrest.stop _)]
  simp

/-- The last six octets of a mapped address: a group and a quad. -/
theorem readGroups_mapped (q : Ipv4) (hrest : EndsGroups rest) :
    readGroups true 7 (groupsText true [0xFFFF] ++ ':' :: (writeQuad q ++ rest)) = (0xFFFF :: quadGroups q, true, rest) := by
  have quad : readGroups false 6 (':' :: (writeQuad q ++ rest)) = (quadGroups q, true, rest) := by
    rw [readGroups_succ]
    simp [afterColon, readChar, readQuad_writeQuad q hrest.endsGroup.endsNumeral]
  rw [readGroups_append (endsGroup_colon _) true (by decide)]
  simp [quad]

theorem readIpv6_whole {cs r : List Char} {gs : List UInt16} {quad : Bool} (h : readGroups true 8 cs = (gs, quad, r))
    (whole : gs.length = 8) : readIpv6 cs = some (spread gs [], r) := by
  rw [readIpv6, h]
  exact if_pos whole

theorem readIpv6_gap {head tail : List UInt16} {quad : Bool} {r : List Char} (few : head.length < 8)
    (h : readGroups true (7 - head.length) r = (tail, quad, rest)) :
    readIpv6 (groupsText true head ++ ':' :: ':' :: r) = some (spread head tail, rest) := by
  rw [readIpv6, readGroups_colons (Nat.le_of_lt few)]
  simp [Nat.ne_of_lt few, readChar, h]

/-- **An address of the sixth version reads back.** -/
theorem readIpv6_writeIpv6 (ip : Ipv6) (hrest : EndsGroups rest) : readIpv6 (writeIpv6 ip ++ rest) = some (ip, rest) := by
  unfold writeIpv6
  split
  · rename_i q mapped
    have text : "::ffff:".toList ++ writeQuad q ++ rest =
        groupsText true [] ++ ':' :: ':' :: (groupsText true [0xFFFF] ++ ':' :: (writeQuad q ++ rest)) := by
      rw [List.append_assoc]
      rfl
    have read := @readIpv6_gap _ [] _ _ _ (by decide) (readGroups_mapped q hrest)
    have whole : spread [] (0xFFFF :: quadGroups q) = ip := spread_eq (n := 5) (toList_of_mappedQuad? mapped)
    rw [text, read, whole]
  · have zeros : (longestRun 0 ⟨0, 0⟩ ⟨0, 0⟩ ip.toList).Within ip.toList :=
      @within_longestRun [] _ ⟨0, 0⟩ ⟨0, 0⟩ (fun h => absurd rfl h) ⟨[], [], rfl, rfl⟩
    dsimp only
    generalize longestRun 0 ⟨0, 0⟩ ⟨0, 0⟩ ip.toList = run at zeros
    have eight : ip.toList.length = 8 := ip.length_toList
    split
    · rename_i long
      obtain ⟨before, after, groups, start⟩ := zeros
      have head : ip.toList.take run.start = before := by rw [groups, List.append_assoc, List.take_left' start]
      have tail : ip.toList.drop (run.start + run.length) = after := by
        rw [groups, List.drop_left' (by rw [List.length_append, List.length_replicate, start])]
      have length : before.length + run.length + after.length = 8 := by
        rw [← eight, groups, List.length_append, List.length_append, List.length_replicate]
      have last := @readGroups_last _ after (7 - before.length) (by omega) hrest
      rw [head, tail, writeGroups_eq, writeGroups_eq, List.append_assoc, List.append_assoc]
      exact (readIpv6_gap (by omega) last).trans (by rw [spread_eq groups])
    · have whole : spread ip.toList [] = ip := spread_eq (n := 0) (by simp)
      rw [writeGroups_eq, readIpv6_whole (readGroups_last (Nat.le_of_eq eight) hrest) eight, whole]

end

/-! ## Socket addresses -/

theorem readPort_numeral (p : UInt16) : readPort (':' :: numeral 10 p.toNat) = some (p, []) := by
  have read : readNumeral portForm (numeral 10 p.toNat ++ []) = some (p.toNat, []) :=
    roomy_portForm.readNumeral_numeral p.toNat_lt endsNumeral_nil
  rw [List.append_nil] at read
  simp [readPort, readChar, read]

/-- A scope before the closing bracket. -/
theorem readScope_bracket (scope : UInt32) (rest : List Char) :
    readScope ((if scope = 0 then [] else '%' :: numeral 10 scope.toNat) ++ ']' :: rest) = (scope, ']' :: rest) := by
  split
  · rename_i zero
    rw [zero]
    rfl
  · have read : readNumeral scopeForm (numeral 10 scope.toNat ++ ']' :: rest) = some (scope.toNat, ']' :: rest) :=
      roomy_scopeForm.readNumeral_numeral scope.toNat_lt (endsNumeral_cons (by decide) rest)
    simp [readScope, readChar, read]

theorem endsGroups_scope (scope : UInt32) (rest : List Char) :
    EndsGroups ((if scope = 0 then [] else '%' :: numeral 10 scope.toNat) ++ ']' :: rest) := by
  split
  · exact ⟨']', rest, rfl, .inr rfl⟩
  · exact ⟨'%', _, rfl, .inl rfl⟩

/-- **The text of a socket address reads back as that address.** -/
theorem ofText?_toText (a : SocketAddress) : ofText? a.toText = some a := by
  rw [ofText?, toText, String.toList_ofList, read?]
  cases a with
  | v4 ip port =>
    have quad := readQuad_writeQuad ip (endsNumeral_cons (c := ':') (by decide) (numeral 10 port.toNat))
    have read : readV4 (writeQuad ip ++ ':' :: numeral 10 port.toNat) = some (.v4 ip port, []) := by
      rw [readV4, quad]
      simp [readPort_numeral]
    rw [write, read]
    rfl
  | v6 ip scope port =>
    have noQuad (r : List Char) : readV4 ('[' :: r) = none := by
      rw [readV4, readQuad_eq_none (endsNumeral_cons (by decide) r)]
      rfl
    have read := readIpv6_writeIpv6 ip (endsGroups_scope scope (':' :: numeral 10 port.toNat))
    rw [write, List.cons_append, List.cons_append, noQuad]
    simp only [List.append_assoc]
    simp [readV6, readChar, read, readScope_bracket, readPort_numeral]

end SocketAddress

theorem PeerAddress.socket_eq_ok {p : PeerAddress} {a : SocketAddress} (h : SocketAddress.ofText? p.text = some a) :
    p.socket = .ok a := by
  unfold PeerAddress.socket
  rw [h]

/-- **Addresses survive text.**  The address under which a socket is known names that socket.  So if an address names a socket
in whatever spelling, the printed one names it too, and two different sockets are never known under the same address. -/
theorem addresses_survive_text :
    (∀ a : SocketAddress, (PeerAddress.ofSocket a).socket = .ok a) ∧
    (∀ (p : PeerAddress) (a : SocketAddress), p.socket = .ok a → (PeerAddress.ofSocket a).socket = .ok a) ∧
    Function.Injective PeerAddress.ofSocket := by
  have back (a : SocketAddress) : (PeerAddress.ofSocket a).socket = .ok a :=
    PeerAddress.socket_eq_ok (SocketAddress.ofText?_toText a)
  exact ⟨back, fun _ a _ => back a, fun a b same => Except.ok.inj ((back a).symm.trans (same ▸ back b))⟩

/-- A spelling with leading zeros and a quad, and with the second of two equally long runs of zeros left out; and the same
address without its scope. -/
theorem addresses_survive_text_spellings :
    let p : PeerAddress := ⟨"[0001:0:0:2::1.2.3.4%007]:080"⟩
    let a : SocketAddress := .v6 #v[1, 0, 0, 2, 0, 0, 0x102, 0x304] 7 80
    let b : SocketAddress := .v6 #v[1, 0, 0, 2, 0, 0, 0x102, 0x304] 0 80
    p.socket = .ok a ∧ (PeerAddress.ofSocket a).text = "[1::2:0:0:102:304%7]:80" ∧
    (PeerAddress.ofSocket a).socket = .ok a ∧ PeerAddress.ofSocket a ≠ PeerAddress.ofSocket b := by
  intro p a b
  have read : SocketAddress.ofText? p.text = some a := by decide +kernel
  have named : p.socket = .ok a := PeerAddress.socket_eq_ok read
  exact ⟨named, by decide +kernel, addresses_survive_text.2.1 p a named,
    fun same => absurd (addresses_survive_text.2.2 same) (by decide)⟩

end GossipNode
