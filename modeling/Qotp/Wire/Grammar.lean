import Qotp.Wire.Accept

namespace Qotp

open Framework

/-- The fields of the header byte. -/
def headerType (header : UInt8) : UInt8 := (header >>> 5) &&& 0b11

def headerHasAck (header : UInt8) : Bool := headerType header == 0b00 || headerType header == 0b10

def headerIsClose (header : UInt8) : Bool := headerType header == 0b10 || headerType header == 0b11

def headerIsExtend (header : UInt8) : Bool := (header &&& ((1 : UInt8) <<< 7)) != 0

/-- Header byte and ACK section together. -/
def ackEnd (header : UInt8) : Nat := if headerHasAck header then 8 + offsetSize (headerIsExtend header) else 1

def streamHeaderSize (header : UInt8) : Nat := 4 + offsetSize (headerIsExtend header)

/-- A packet cut into the sections of the documented format. -/
structure Sections where
  header : UInt8
  ack : Bytes
  stream : Bytes
  userData : Bytes

/-- The documented format: the ACK section stands where the type has one, and the stream
header is left out only by an ACK-only packet, which ends there. -/
structure Sections.Format (x : Sections) : Prop where
  version : x.header &&& 0b11111 = protoVersion
  ack : 1 + x.ack.length = ackEnd x.header
  stream : x.stream.length = streamHeaderSize x.header ∨
    (headerType x.header = 0b00 ∧ x.stream = [] ∧ x.userData = [])

def Sections.bytes (x : Sections) : Bytes := x.header :: (x.ack ++ x.stream ++ x.userData)

/-- What the decoder returned is what the sections hold. -/
structure Sections.Read (x : Sections) (p : PayloadHeader) (u : Option Bytes) : Prop where
  isClose : p.isClose = headerIsClose x.header
  ack : p.ack.isSome = headerHasAck x.header
  stream : u = none ↔ x.stream = []
  userData : u.getD [] = x.userData

/-- The decoder takes `d` exactly if it has the documented format, and then no byte is left
over and a CLOSE has its stream header. -/
structure FollowsFormat (d : Bytes) : Prop where
  accepts : (∃ r, decodePayload d = some (.ok r)) ↔ ∃ x : Sections, x.Format ∧ x.bytes = d
  sections : ∀ p u, decodePayload d = some (.ok (p, u)) → ∃ x : Sections, x.Format ∧ x.bytes = d ∧ x.Read p u
  close : ∀ p u, decodePayload d = some (.ok (p, u)) → p.isClose = true → u.isSome = true
  lengths : ∀ p u, decodePayload d = some (.ok (p, u)) → ∃ header ∈ d.head?,
    ackEnd header + (if u.isSome then streamHeaderSize header else 0) + (u.getD []).length = d.length

/-- An ACK packet too short for a stream header that is not just the ACK section of a type 00. -/
def ShortAck (d : Bytes) : Prop :=
  ∃ header ∈ d.head?, header &&& 0b11111 = protoVersion ∧ headerHasAck header = true ∧
    ackEnd header ≤ d.length ∧ d.length < 18 ∧ ¬(headerType header = 0b00 ∧ d.length = ackEnd header)

instance (d : Bytes) : Decidable (ShortAck d) := inferInstanceAs (Decidable (∃ header ∈ d.head?, _))

/-- The sizes the decoder asks for, by type: an ACK packet below 18 bytes needs no stream header. -/
def EnoughBytes (header : UInt8) (n : Nat) : Prop :=
  if headerHasAck header ∧ n < 18 then ackEnd header ≤ n else ackEnd header + streamHeaderSize header ≤ n

theorem enoughBytes_iff (header : UInt8) (n : Nat) : EnoughBytes header n ↔
    calcProtoOverhead (headerHasAck header) (headerIsExtend header) (headerHasAck header && decide (n < 18)) ≤ n := by
  unfold EnoughBytes ackEnd streamHeaderSize calcProtoOverhead offsetSize
  by_cases hn : n < 18 <;> cases headerHasAck header <;> cases headerIsExtend header <;> simp [hn]

theorem EnoughBytes.minProtoSize_le {header : UInt8} {n : Nat} (h : EnoughBytes header n) : minProtoSize ≤ n := by
  rw [enoughBytes_iff] at h
  refine le_trans ?_ h
  simp only [minProtoSize, calcProtoOverhead]
  cases headerHasAck header <;> cases headerIsExtend header <;> simp

/-- What the decoder does with a packet of sufficient size. -/
def readSections (header : UInt8) (data : Bytes) : Option (Except String (PayloadHeader × Option Bytes)) := do
  let (ack, offset) ←
    if headerHasAck header then (decodeAck data (headerIsExtend header)).map fun r => (some r.1, r.2)
    else some (none, 1)
  if headerHasAck header && decide (data.length < 18) then
    return .ok ({ isClose := headerIsClose header, ack := ack }, none)
  let streamID ← uint32 (data.drop offset)
  let streamOffset ← offsetVarint (data.drop (offset + 4)) (headerIsExtend header)
  let rest := offset + 4 + offsetSize (headerIsExtend header)
  return .ok (⟨headerIsClose header, ack, streamID, streamOffset⟩,
    some (if data.length > rest then data.drop rest else []))

theorem decodePayload_cons (header : UInt8) (bs : Bytes) : decodePayload (header :: bs) =
    if (header :: bs).length < minProtoSize then some (.error "payload Size below minimum of 8 bytes")
    else if header &&& 0b11111 ≠ protoVersion then some (.error "unsupported protocol version")
    else if (header :: bs).length < calcProtoOverhead (headerHasAck header) (headerIsExtend header)
      (headerHasAck header && decide ((header :: bs).length < 18)) then some (.error "payload size below minimum")
    else readSections header (header :: bs) := rfl

/-- Flags from the header byte, and user data behind the stream header unless the packet is an
ACK below 18 bytes. -/
theorem readSections_of_enough {header : UInt8} {data : Bytes} (h : EnoughBytes header data.length) :
    ∃ ack id off, ack.isSome = headerHasAck header ∧ readSections header data =
      some (.ok (⟨headerIsClose header, ack, id, off⟩, if headerHasAck header ∧ data.length < 18 then none
        else some (data.drop (ackEnd header + streamHeaderSize header)))) := by
  obtain ⟨hack, hdata⟩ := fields_in_range ((enoughBytes_iff header data.length).mp h)
  have hrest : ∀ o, (if data.length > o then data.drop o else []) = data.drop o := by
    intro o
    split_ifs with ho
    · rfl
    · rw [List.drop_of_length_le (not_lt.mp ho)]
  unfold readSections ackEnd streamHeaderSize
  cases hb : headerHasAck header with
  | false =>
    rw [hb] at hdata
    obtain ⟨id, off, hid, hoff, _, _⟩ := dataSection_of_le (hdata rfl)
    simp only [Bool.false_eq_true, if_false] at hid hoff
    refine ⟨none, id, off, rfl, ?_⟩
    simp only [Bool.false_eq_true, if_false, Bool.false_and, false_and, Option.bind_eq_bind, Option.bind_some, hid,
      hoff, hrest, Nat.add_assoc, Option.pure_def]
  | true =>
    rw [hb] at hdata
    obtain ⟨a, _, ha, _⟩ := decodeAck_of_le (hack hb)
    by_cases hn : data.length < 18
    · exact ⟨some a, 0, 0, rfl, by simp [ha, hn]⟩
    · obtain ⟨id, off, hid, hoff, _, _⟩ := dataSection_of_le (hdata (by simp [hn]))
      simp only [if_true] at hid hoff
      refine ⟨some a, id, off, rfl, ?_⟩
      simp only [if_true, ha, Option.map_some, hn, decide_false, Bool.and_false, Bool.false_eq_true, if_false, and_false,
        Option.bind_eq_bind, Option.bind_some, hid, hoff, hrest, Option.pure_def, ← Nat.add_assoc]

/-- The decoder accepts by version and size alone. -/
theorem decodePayload_ok_iff (header : UInt8) (bs : Bytes) : (∃ r, decodePayload (header :: bs) = some (.ok r)) ↔
    header &&& 0b11111 = protoVersion ∧ EnoughBytes header (header :: bs).length := by
  rw [decodePayload_cons]
  constructor
  · rintro ⟨r, hr⟩
    split_ifs at hr with hmin hver hover
    · cases hr
    · cases hr
    · cases hr
    · exact ⟨not_not.mp hver, (enoughBytes_iff _ _).mpr (not_lt.mp hover)⟩
  · rintro ⟨hver, henough⟩
    rw [if_neg (not_lt.mpr henough.minProtoSize_le), if_neg (not_not.mpr hver),
      if_neg (not_lt.mpr ((enoughBytes_iff _ _).mp henough))]
    obtain ⟨ack, id, off, _, hr⟩ := readSections_of_enough henough
    exact ⟨_, hr⟩

/-- What the decoder returns for a packet it accepts. -/
theorem decodePayload_ok {header : UInt8} {bs : Bytes} {p : PayloadHeader} {u : Option Bytes}
    (h : decodePayload (header :: bs) = some (.ok (p, u))) :
    p.isClose = headerIsClose header ∧ p.ack.isSome = headerHasAck header ∧
      u = if headerHasAck header ∧ (header :: bs).length < 18 then none
        else some ((header :: bs).drop (ackEnd header + streamHeaderSize header)) := by
  obtain ⟨hver, henough⟩ := (decodePayload_ok_iff header bs).mp ⟨_, h⟩
  rw [decodePayload_cons, if_neg (not_lt.mpr henough.minProtoSize_le), if_neg (not_not.mpr hver),
    if_neg (not_lt.mpr ((enoughBytes_iff _ _).mp henough))] at h
  obtain ⟨ack, id, off, hack, hr⟩ := readSections_of_enough henough
  rw [hr] at h
  cases h
  exact ⟨rfl, hack, rfl⟩

theorem ackEnd_pos (header : UInt8) : 1 ≤ ackEnd header := by
  unfold ackEnd
  split_ifs <;> omega

/-- 18 bytes are the least that an ACK packet with a stream header has. -/
theorem le_ackEnd_add {header : UInt8} (h : headerHasAck header = true) :
    ackEnd header < 18 ∧ 18 ≤ ackEnd header + streamHeaderSize header := by
  rw [ackEnd, if_pos h, streamHeaderSize, offsetSize]
  split_ifs <;> omega

theorem headerHasAck_of_type {header : UInt8} (h : headerType header = 0b00) :
    headerHasAck header = true ∧ headerIsClose header = false := by
  simp [headerHasAck, headerIsClose, h]

/-- The cut of a packet behind `m` and `n` bytes. -/
def cutAt (header : UInt8) (bs : Bytes) (m n : Nat) : Sections :=
  ⟨header, bs.take (m - 1), ((header :: bs).drop m).take n, (header :: bs).drop (m + n)⟩

theorem cutAt_bytes (header : UInt8) (bs : Bytes) {m : Nat} (hm : 1 ≤ m) (n : Nat) :
    (cutAt header bs m n).bytes = header :: bs := by
  obtain ⟨m, rfl⟩ := Nat.exists_eq_add_of_le' hm
  simp only [cutAt, Sections.bytes, Nat.add_sub_cancel, List.drop_succ_cons, Nat.succ_add]
  rw [← List.drop_drop, List.append_assoc, List.take_append_drop, List.take_append_drop]

theorem cutAt_format {header : UInt8} {bs : Bytes} (hver : header &&& 0b11111 = protoVersion)
    (hlen : ackEnd header + streamHeaderSize header ≤ (header :: bs).length) :
    (cutAt header bs (ackEnd header) (streamHeaderSize header)).Format := by
  have hpos := ackEnd_pos header
  refine ⟨hver, ?_, .inl ?_⟩ <;>
  · simp only [cutAt, List.length_take, List.length_drop, List.length_cons] at hlen ⊢
    omega

theorem cutAt_format_bare {header : UInt8} {bs : Bytes} (hver : header &&& 0b11111 = protoVersion)
    (htype : headerType header = 0b00) (hlen : (header :: bs).length = ackEnd header) :
    (cutAt header bs (ackEnd header) 0).Format := by
  refine ⟨hver, ?_, .inr ⟨htype, rfl, List.drop_of_length_le (by omega)⟩⟩
  simp only [cutAt, List.length_take, List.length_cons] at hlen ⊢
  omega

/-- The packets of the format: an ACK section alone for type 00, or room for the stream header. -/
theorem format_iff (header : UInt8) (bs : Bytes) : (∃ x : Sections, x.Format ∧ x.bytes = header :: bs) ↔
    header &&& 0b11111 = protoVersion ∧ (ackEnd header + streamHeaderSize header ≤ (header :: bs).length ∨
      (headerType header = 0b00 ∧ (header :: bs).length = ackEnd header)) := by
  have hpos := ackEnd_pos header
  constructor
  · rintro ⟨⟨_, ack, stream, userData⟩, ⟨hver, hack, hstream⟩, hbytes⟩
    cases hbytes
    refine ⟨hver, ?_⟩
    simp only [List.length_cons, List.length_append] at hack ⊢
    obtain hlen | ⟨htype, hs, hu⟩ := hstream
    · dsimp only at hlen
      exact .inl (by omega)
    · dsimp only at hs hu
      subst hs hu
      exact .inr ⟨htype, by simp only [List.length_nil]; omega⟩
  · rintro ⟨hver, hlen | ⟨htype, hlen⟩⟩
    · exact ⟨_, cutAt_format hver hlen, cutAt_bytes header bs hpos _⟩
    · exact ⟨_, cutAt_format_bare hver htype hlen, cutAt_bytes header bs hpos _⟩

/-- Where no short ACK stands in the way, the sizes the decoder asks for are those of the format. -/
theorem enoughBytes_iff_format {header : UInt8} {bs : Bytes} (hver : header &&& 0b11111 = protoVersion)
    (h : ¬ShortAck (header :: bs)) : EnoughBytes header (header :: bs).length ↔
      (ackEnd header + streamHeaderSize header ≤ (header :: bs).length ∨
        (headerType header = 0b00 ∧ (header :: bs).length = ackEnd header)) := by
  unfold EnoughBytes
  split_ifs with hshort
  · obtain ⟨hack, hn⟩ := hshort
    have h18 := (le_ackEnd_add hack).2
    constructor
    · intro hle
      refine .inr (not_not.mp fun hne => ?_)
      exact h ⟨header, rfl, hver, hack, hle, hn, hne⟩
    · rintro (hle | ⟨_, heq⟩) <;> omega
  · constructor
    · exact .inl
    · rintro (hle | ⟨htype, heq⟩)
      · exact hle
      · have hack := (headerHasAck_of_type htype).1
        have h18 := (le_ackEnd_add hack).1
        exact absurd ⟨hack, by omega⟩ hshort

/-- The sections of an accepted packet that is not a short ACK. -/
theorem sections_of_ok {header : UInt8} {bs : Bytes} (h : ¬ShortAck (header :: bs)) {p : PayloadHeader}
    {u : Option Bytes} (hd : decodePayload (header :: bs) = some (.ok (p, u))) :
    ∃ x : Sections, x.Format ∧ x.bytes = header :: bs ∧ x.Read p u := by
  obtain ⟨hver, henough⟩ := (decodePayload_ok_iff header bs).mp ⟨_, hd⟩
  obtain ⟨hclose, hack, hu⟩ := decodePayload_ok hd
  have hpos := ackEnd_pos header
  obtain hlen | ⟨htype, hlen⟩ := (enoughBytes_iff_format hver h).mp henough
  · have hfull : ¬(headerHasAck header ∧ (header :: bs).length < 18) := by
      rintro ⟨ha, hn⟩
      have h18 := (le_ackEnd_add ha).2
      omega
    rw [if_neg hfull] at hu
    have hformat := cutAt_format hver hlen
    refine ⟨_, hformat, cutAt_bytes header bs hpos _, hclose, hack, ?_, ?_⟩
    · rw [hu]
      refine ⟨nofun, fun hs => absurd (congrArg List.length hs) ?_⟩
      simp only [cutAt, List.length_take, List.length_drop, List.length_nil, streamHeaderSize] at hlen ⊢
      omega
    · rw [hu]
      rfl
  · have hbare : headerHasAck header ∧ (header :: bs).length < 18 := by
      have ha := (headerHasAck_of_type htype).1
      rw [hlen]
      exact ⟨ha, (le_ackEnd_add ha).1⟩
    rw [if_pos hbare] at hu
    have hformat := cutAt_format_bare hver htype hlen
    refine ⟨_, hformat, cutAt_bytes header bs hpos _, hclose, hack, ?_, ?_⟩
    · rw [hu]
      exact ⟨fun _ => rfl, fun _ => rfl⟩
    · rw [hu]
      exact (List.drop_of_length_le (by omega)).symm

namespace Sections

variable {x : Sections} {p : PayloadHeader} {u : Option Bytes}

/-- A packet without stream header is no CLOSE. -/
theorem Read.isSome_of_close (hr : x.Read p u) (hf : x.Format) (hc : p.isClose = true) : u.isSome = true := by
  rw [Option.isSome_iff_ne_none]
  intro hu
  have hs := hr.stream.mp hu
  obtain hlen | ⟨htype, _⟩ := hf.stream
  · rw [hs, streamHeaderSize] at hlen
    simp only [List.length_nil] at hlen
    omega
  · rw [hr.isClose, (headerHasAck_of_type htype).2] at hc
    cases hc

theorem Read.lengths (hr : x.Read p u) (hf : x.Format) :
    ackEnd x.header + (if u.isSome then streamHeaderSize x.header else 0) + (u.getD []).length = x.bytes.length := by
  have hstream : (if u.isSome then streamHeaderSize x.header else 0) = x.stream.length := by
    obtain hlen | ⟨_, hs, _⟩ := hf.stream
    · rw [if_pos, hlen]
      rw [Option.isSome_iff_ne_none]
      intro hu
      rw [hr.stream.mp hu, streamHeaderSize, List.length_nil] at hlen
      omega
    · rw [if_neg, hs, List.length_nil]
      rw [hr.stream.mpr hs]
      exact Bool.false_ne_true
  rw [hstream, hr.userData, ← hf.ack, bytes, List.length_cons, List.length_append, List.length_append]
  omega

end Sections

/-- The decoder follows the documented format on all packets but the short ACKs, where it
leaves bytes unread or takes a CLOSE without its stream header. -/
theorem followsFormat_iff (d : Bytes) : FollowsFormat d ↔ ¬ShortAck d := by
  cases d with
  | nil =>
    have hno : ∀ r, decodePayload [] ≠ some (.ok r) := fun r hr => by cases hr
    refine ⟨fun _ => nofun, fun _ => ⟨⟨?_, ?_⟩, ?_, ?_, ?_⟩⟩
    · rintro ⟨r, hr⟩
      exact absurd hr (hno r)
    · rintro ⟨x, _, hx⟩
      cases hx
    all_goals exact fun p u hd => absurd hd (hno _)
  | cons header bs =>
    constructor
    · rintro hf ⟨_, ⟨⟩, hver, hack, hle, hn, hne⟩
      have henough : EnoughBytes header (header :: bs).length := by
        rw [EnoughBytes, if_pos ⟨hack, hn⟩]
        exact hle
      obtain ⟨_, hlen | hbare⟩ := (format_iff header bs).mp
        (hf.accepts.mp ((decodePayload_ok_iff header bs).mpr ⟨hver, henough⟩))
      · have h18 := (le_ackEnd_add hack).2
        omega
      · exact hne hbare
    · intro h
      refine ⟨?_, fun p u hd => sections_of_ok h hd, fun p u hd hc => ?_, fun p u hd => ?_⟩
      · rw [decodePayload_ok_iff, format_iff]
        exact and_congr_right fun hver => enoughBytes_iff_format hver h
      · obtain ⟨x, hf, _, hr⟩ := sections_of_ok h hd
        exact hr.isSome_of_close hf hc
      · obtain ⟨x, hf, hx, hr⟩ := sections_of_ok h hd
        refine ⟨header, rfl, ?_⟩
        have hlen := hr.lengths hf
        rw [hx] at hlen
        cases hx
        exact hlen

/-- A CLOSE with ACK that ends behind its ACK section is accepted, without a stream header. -/
theorem bareCloseAck_accepted :
    (∃ p, decodePayload [0x40, 1, 0, 0, 0, 0, 0, 0, 5, 0, 0] = some (.ok (p, none)) ∧ p.isClose = true) ∧
    ¬FollowsFormat [0x40, 1, 0, 0, 0, 0, 0, 0, 5, 0, 0] := by
  have hd : decodePayload [0x40, 1, 0, 0, 0, 0, 0, 0, 5, 0, 0] =
      some (.ok ({ isClose := true, ack := some ⟨1, 0, 5, 0⟩ }, none)) := by decide
  refine ⟨⟨_, hd, rfl⟩, fun hf => ?_⟩
  have hsome := hf.close _ _ hd rfl
  cases hsome

end Qotp
