import Clawreform.Wire.Message

namespace Clawreform.Wire

open Clawreform.Lib.Text Clawreform.Lib.BigEndian

section RoundTrip

variable {C : Codec} {msg : WireMessage} {json : Bytes}

theorem readMessage_frame (C : Codec) (json rest : Bytes) :
    readMessage C (frame json ++ rest) = readBody C (UInt32.ofNat json.length) (json ++ rest) := by
  simp only [frame, toBeBytes, List.cons_append, List.nil_append, readMessage, decodeLength,
    fromBeBytes_toBeBytes]

/-- A message that fits is read back, and nothing behind it. -/
theorem readMessage_fits (hjson : C.toVec msg = some json) (hfits : json.length ≤ maxMessageSize.toNat)
    (rest : Bytes) : readMessage C (frame json ++ rest) = (.ok msg, rest) := by
  have hlt : json.length < 2 ^ 32 := Nat.lt_of_le_of_lt hfits (by decide)
  have hlen : (UInt32.ofNat json.length).toNat = json.length := by
    rw [UInt32.toNat_ofNat', Nat.mod_eq_of_lt hlt]
  have hmax : ¬ maxMessageSize < UInt32.ofNat json.length := by
    rw [UInt32.lt_iff_toNat_lt, hlen]
    omega
  rw [readMessage_frame, readBody, if_neg hmax, hlen, if_neg (by simp), List.take_left,
    decodeMessage, C.fromSlice_toVec hjson, List.drop_left]

/-- A message that does not fit is not read back: its length is refused, or has
wrapped and cuts the text off. -/
theorem readMessage_exceeds (hjson : C.toVec msg = some json)
    (hexceeds : maxMessageSize.toNat < json.length) (rest : Bytes) :
    ∃ e, (readMessage C (frame json ++ rest)).1 = .error e := by
  rw [readMessage_frame, readBody]
  by_cases hmax : maxMessageSize < UInt32.ofNat json.length
  · exact ⟨_, by rw [if_pos hmax]⟩
  · have hlen : (UInt32.ofNat json.length).toNat < json.length := by
      rw [UInt32.lt_iff_toNat_lt] at hmax
      omega
    have henough : ¬ (json ++ rest).length < (UInt32.ofNat json.length).toNat := by
      rw [List.length_append]
      omega
    have hcut : decodeMessage C ((json ++ rest).take (UInt32.ofNat json.length).toNat) = none := by
      rw [List.take_append_of_le_length hlen.le]
      apply C.fromSlice_prefix hjson (List.take_prefix _ _)
      intro heq
      have := congrArg List.length heq
      rw [List.length_take] at this
      omega
    exact ⟨.json, by rw [if_neg hmax, if_neg henough, hcut]⟩

theorem writeMessages_cons {msgs : List WireMessage} {bytes : Bytes}
    (h : writeMessages C (msg :: msgs) = some bytes) :
    ∃ json rest, C.toVec msg = some json ∧ writeMessages C msgs = some rest ∧
      bytes = frame json ++ rest := by
  rw [writeMessages, Option.map_eq_some_iff] at h
  obtain ⟨frames, hframes, rfl⟩ := h
  rw [List.mapM_cons] at hframes
  obtain ⟨first, hfirst, hrest⟩ := Option.bind_eq_some_iff.mp hframes
  obtain ⟨others, hothers, heq⟩ := Option.bind_eq_some_iff.mp hrest
  obtain ⟨json, hjson, rfl⟩ := Option.map_eq_some_iff.mp hfirst
  cases heq
  exact ⟨json, others.flatten, hjson, by rw [writeMessages, hothers]; rfl, rfl⟩

/-- What is written is read back if and only if every message fits. -/
theorem readMessages_written (C : Codec) {msgs : List WireMessage} {bytes : Bytes}
    (h : writeMessages C msgs = some bytes) :
    readMessages C msgs.length bytes = (.ok msgs, []) ↔
      ∀ msg ∈ msgs, ∀ json, C.toVec msg = some json → json.length ≤ maxMessageSize.toNat := by
  induction msgs generalizing bytes with
  | nil =>
    cases h
    simp [readMessages]
  | cons msg msgs ih =>
    obtain ⟨json, rest, hjson, hrest, rfl⟩ := writeMessages_cons h
    rw [List.forall_mem_cons, ← ih hrest, List.length_cons, readMessages]
    by_cases hfits : json.length ≤ maxMessageSize.toNat
    · have hmsg : ∀ other, C.toVec msg = some other → other.length ≤ maxMessageSize.toNat := by
        intro other hother
        rw [hjson] at hother
        cases hother
        exact hfits
      rw [readMessage_fits hjson hfits, and_iff_right hmsg]
      dsimp only
      generalize readMessages C msgs.length rest = others
      obtain ⟨result, stream⟩ := others
      cases result <;> simp [Except.map]
    · obtain ⟨e, he⟩ := readMessage_exceeds hjson (not_le.mp hfits) rest
      refine iff_of_false (fun hread => ?_) fun hmsg => hfits (hmsg.1 json hjson)
      split at hread
      · rename_i hok
        rw [hok] at he
        cases he
      · cases hread

end RoundTrip

section Pings

def ascii (text : String) : Bytes := text.toList.map fun c => UInt8.ofNat c.toNat

def ping (n : Nat) : WireMessage := ⟨List.replicate n 'a', .request .ping⟩

def pingStart : Bytes := ascii "\x7b\"id\":\""

def pingEnd : Bytes := ascii "\",\"type\":\"request\",\"method\":\"ping\"\x7d"

def pingJson (n : Nat) : Bytes := pingStart ++ (List.replicate n 97 ++ pingEnd)

theorem length_pingJson (n : Nat) :
    (pingJson n).length = pingStart.length + pingEnd.length + n := by
  simp only [pingJson, List.length_append, List.length_replicate]
  omega

theorem pingJson_injective {m n : Nat} (h : pingJson m <+: pingJson n) : m = n := by
  have hle : m ≤ n := by
    have := h.length_le
    rw [length_pingJson, length_pingJson] at this
    omega
  obtain ⟨d, rfl⟩ := Nat.exists_eq_add_of_le hle
  rw [pingJson, pingJson, List.prefix_append_right_inj, List.replicate_add, List.append_assoc,
    List.prefix_append_right_inj] at h
  cases d with
  | zero => rfl
  | succ d =>
    rw [List.replicate_succ, List.cons_append] at h
    exact absurd (List.cons_prefix_cons.mp h).1 (by decide)

/-- The JSON library on pings with an id of so many letters. -/
def pingCodec : Codec where
  toVec msg := if msg = ping msg.id.length then some (pingJson msg.id.length) else none
  fromSlice body :=
    let n := body.length - (pingStart.length + pingEnd.length)
    if body = pingJson n then some (ping n) else none
  fromSlice_toVec := by
    intro msg json h
    split at h
    · rename_i hmsg
      cases h
      dsimp only
      rw [length_pingJson, Nat.add_sub_cancel_left, if_pos rfl, ← hmsg]
    · cases h
  fromSlice_prefix := by
    intro msg json part h hpart hne
    split at h
    · cases h
      dsimp only
      rw [if_neg]
      intro heq
      rw [heq] at hpart
      exact hne (heq.trans (congrArg pingJson (pingJson_injective hpart)))
    · cases h

theorem pingCodec_toVec (n : Nat) : pingCodec.toVec (ping n) = some (pingJson n) := by
  have hid : (ping n).id.length = n := List.length_replicate
  simp only [pingCodec, hid, if_true]

theorem readMessages_written_pings :
    ∃ bytes, writeMessages pingCodec [ping 1, ping 2] = some bytes ∧
      readMessages pingCodec 2 bytes = (.ok [ping 1, ping 2], []) := by
  have hwritten : writeMessages pingCodec [ping 1, ping 2] =
      some (frame (pingJson 1) ++ frame (pingJson 2)) := by
    simp [writeMessages, encodeMessage, pingCodec_toVec]
  refine ⟨_, hwritten, (readMessages_written pingCodec hwritten).mpr ?_⟩
  have hstart : pingStart.length = 7 := rfl
  have hend : pingEnd.length = 35 := rfl
  simp [pingCodec_toVec, length_pingJson, hstart, hend, maxMessageSize]

theorem ping_refused {n : Nat} (h : maxMessageSize.toNat < n) :
    ∃ bytes, writeMessages pingCodec [ping n] = some bytes ∧
      readMessages pingCodec 1 bytes ≠ (.ok [ping n], []) := by
  have hexceeds : maxMessageSize.toNat < (pingJson n).length := by
    rw [length_pingJson]
    omega
  obtain ⟨e, he⟩ := readMessage_exceeds (pingCodec_toVec n) hexceeds []
  refine ⟨frame (pingJson n) ++ [], by simp [writeMessages, encodeMessage, pingCodec_toVec], ?_⟩
  rw [readMessages]
  split
  · rename_i hok
    rw [hok] at he
    cases he
  · exact nofun

/-- A ping with an id of 16 MiB is written, and not read back. -/
theorem readMessages_refused :
    ∃ bytes, writeMessages pingCodec [ping (2 ^ 24 + 1)] = some bytes ∧
      readMessages pingCodec 1 bytes ≠ (.ok [ping (2 ^ 24 + 1)], []) :=
  ping_refused (by decide)

end Pings

end Clawreform.Wire
