import Qotp.Wire.RoundTrip

namespace Qotp

open Framework

/-- The fields of a header within their widths; offsets have 48 bits on the wire. -/
structure PayloadHeader.Fits (p : PayloadHeader) : Prop where
  streamID : p.streamID < 2 ^ 32
  streamOffset : p.streamOffset < 2 ^ 48
  ack : ∀ a, p.ack = some a → a.streamID < 2 ^ 32 ∧ a.offset < 2 ^ 48 ∧ a.len < 2 ^ 16

/-- An ack as it comes back: only the window is rounded. -/
def Ack.rounded (a : Ack) : Ack := { a with rcvWnd := decodeRcvWindow (encodeRcvWindow a.rcvWnd) }

theorem PayloadHeader.Fits.wireAck {p : PayloadHeader} (h : p.Fits) : p.ack.map wireAck = p.ack.map Ack.rounded := by
  cases ha : p.ack with
  | none => rfl
  | some a =>
    obtain ⟨h1, h2, h3⟩ := h.ack a ha
    simp only [Option.map_some, Qotp.wireAck, Ack.rounded, Nat.mod_eq_of_lt h1, Nat.mod_eq_of_lt h2,
      Nat.mod_eq_of_lt h3]

/-- The window codes are the values of the encoder. -/
theorem encodeRcvWindow_decode (b : UInt8) : encodeRcvWindow (decodeRcvWindow b) = b := by
  have h : ∀ n : Fin 256, encodeRcvWindow (decodeRcvWindow (UInt8.ofNat n)) = UInt8.ofNat n := by decide +kernel
  have hb := h ⟨b.toNat, b.toNat_lt⟩
  simpa using hb

/-- A reader with enough bytes before it returns a value of its width. -/
theorem getLE?_of_le {n : Nat} {b : Bytes} (h : n ≤ b.length) : ∃ v, getLE? n b = some v ∧ v < 256 ^ n := by
  refine ⟨_, if_pos h, ?_⟩
  have hlt := getLE_lt (b.take n)
  rwa [List.length_take_of_le h] at hlt

theorem offsetVarint_of_le {isExtend : Bool} {b : Bytes} (h : offsetSize isExtend ≤ b.length) :
    ∃ v, offsetVarint b isExtend = some v ∧ v < 2 ^ 48 := by
  cases isExtend with
  | true => exact getLE?_of_le h
  | false =>
    obtain ⟨v, hv, hlt⟩ := getLE?_of_le (n := 3) h
    exact ⟨v, hv, by omega⟩

/-- What the reader of the ACK section returns. -/
theorem decodeAck_of_le {data : Bytes} {isExtend : Bool} (h : 8 + offsetSize isExtend ≤ data.length) :
    ∃ a b, decodeAck data isExtend = some (a, 8 + offsetSize isExtend) ∧ a.streamID < 2 ^ 32 ∧
      a.offset < 2 ^ 48 ∧ a.len < 2 ^ 16 ∧ a.rcvWnd = decodeRcvWindow b := by
  obtain ⟨id, hid, hidlt⟩ := getLE?_of_le (n := 4) (b := data.drop 1) (by rw [List.length_drop]; omega)
  obtain ⟨off, hoff, hofflt⟩ := @offsetVarint_of_le isExtend (data.drop 5)
    (by rw [List.length_drop]; omega)
  obtain ⟨len, hlen, hlenlt⟩ := getLE?_of_le (n := 2) (b := data.drop (5 + offsetSize isExtend))
    (by rw [List.length_drop]; omega)
  have hw : 5 + offsetSize isExtend + 2 < data.length := by omega
  refine ⟨⟨id, off, len, decodeRcvWindow data[5 + offsetSize isExtend + 2]⟩, _, ?_, hidlt, hofflt, hlenlt, rfl⟩
  simp only [decodeAck, uint32, uint16, hid, hoff, hlen, List.getElem?_eq_getElem hw, Option.bind_eq_bind,
    Option.bind_some, Option.some.injEq, Prod.mk.injEq, true_and]
  omega

/-- A packet as the decoder returns it: widths kept, a window of the table, and without
a data section neither a stream nor an offset. -/
structure OnWire (p : PayloadHeader) (u : Option Bytes) : Prop where
  fits : p.Fits
  wnd : ∀ a, p.ack = some a → a.rounded = a
  bare : u = none → p.ack.isSome = true ∧ p.streamID = 0 ∧ p.streamOffset = 0

/-- The two sizes the decoder checks cover every field it reads. -/
theorem fields_in_range {n : Nat} {isAck isExtend : Bool}
    (h : calcProtoOverhead isAck isExtend (isAck && decide (n < 18)) ≤ n) :
    (isAck = true → 8 + offsetSize isExtend ≤ n) ∧
      ((isAck && decide (n < 18)) = false →
        (if isAck then 8 + offsetSize isExtend else 1) + 4 + offsetSize isExtend ≤ n) := by
  simp only [calcProtoOverhead, offsetSize] at h ⊢
  cases isAck <;> cases isExtend <;> simp_all <;> split_ifs at h <;> omega

/-- The three fields of a data section that lies within the packet. -/
theorem dataSection_of_le {data : Bytes} {isExtend : Bool} {o : Nat}
    (h : o + 4 + offsetSize isExtend ≤ data.length) :
    ∃ id off, uint32 (data.drop o) = some id ∧ offsetVarint (data.drop (o + 4)) isExtend = some off ∧
      id < 2 ^ 32 ∧ off < 2 ^ 48 := by
  obtain ⟨id, hid, hidlt⟩ := getLE?_of_le (n := 4) (b := data.drop o) (by rw [List.length_drop]; omega)
  obtain ⟨off, hoff, hofflt⟩ := @offsetVarint_of_le isExtend (data.drop (o + 4))
    (by rw [List.length_drop]; omega)
  exact ⟨id, off, hid, hoff, hidlt, hofflt⟩

/-- No byte string makes the decoder index out of range, and what it accepts can be written. -/
theorem decodePayload_outcome (d : Bytes) :
    (∃ e, decodePayload d = some (.error e)) ∨ ∃ p u, decodePayload d = some (.ok (p, u)) ∧ OnWire p u := by
  unfold decodePayload
  by_cases hmin : d.length < minProtoSize
  · exact .inl ⟨_, if_pos hmin⟩
  rw [if_neg hmin]
  cases d with
  | nil => exact absurd (show ([] : Bytes).length < minProtoSize by decide) hmin
  | cons header bs =>
    simp only [List.getElem?_cons_zero, Option.bind_eq_bind, Option.bind_some]
    generalize header :: bs = data
    generalize ((header >>> 5 &&& 0b11) == 0b00 || (header >>> 5 &&& 0b11) == 0b10) = isAck
    generalize ((header >>> 5 &&& 0b11) == 0b10 || (header >>> 5 &&& 0b11) == 0b11) = isClose
    generalize ((header &&& (1 : UInt8) <<< 7) != 0) = isExtend
    by_cases hver : header &&& 0b11111 ≠ protoVersion
    · exact .inl ⟨_, if_pos hver⟩
    rw [if_neg hver]
    by_cases hover : data.length < calcProtoOverhead isAck isExtend (isAck && decide (data.length < 18))
    · exact .inl ⟨_, if_pos hover⟩
    rw [if_neg hover]
    obtain ⟨hack, hdata⟩ := fields_in_range (not_lt.mp hover)
    refine .inr ?_
    cases isAck with
    | false =>
      obtain ⟨id, off, hid, hoff, hidlt, hofflt⟩ := dataSection_of_le (hdata rfl)
      simp only [Bool.false_and, Bool.false_eq_true, if_false] at hid hoff ⊢
      rw [hid, hoff]
      exact ⟨_, _, rfl, ⟨hidlt, hofflt, nofun⟩, nofun, nofun⟩
    | true =>
      obtain ⟨a, b, ha, h1, h2, h3, hw⟩ := decodeAck_of_le (hack rfl)
      have hround : a.rounded = a := by
        simp only [Ack.rounded, hw, encodeRcvWindow_decode]
        rw [← hw]
      have hfit : ∀ a', some a = some a' → a'.streamID < 2 ^ 32 ∧ a'.offset < 2 ^ 48 ∧ a'.len < 2 ^ 16 := by
        rintro _ ⟨⟩
        exact ⟨h1, h2, h3⟩
      have hwnd : ∀ a', some a = some a' → a'.rounded = a' := by
        rintro _ ⟨⟩
        exact hround
      simp only [if_true, ha, Option.map_some, Option.bind_some]
      cases hempty : (true && decide (data.length < 18)) with
      | true => exact ⟨_, _, rfl, ⟨Nat.two_pow_pos 32, Nat.two_pow_pos 48, hfit⟩, hwnd, fun _ => ⟨rfl, rfl, rfl⟩⟩
      | false =>
        obtain ⟨id, off, hid, hoff, hidlt, hofflt⟩ := dataSection_of_le (hdata hempty)
        simp only [if_true] at hid hoff
        simp only [Bool.false_eq_true, if_false, hid, hoff, Option.bind_some]
        exact ⟨_, _, rfl, ⟨hidlt, hofflt, hfit⟩, hwnd, nofun⟩

theorem ackOnly_iff (p : PayloadHeader) (u : Option Bytes) :
    ackOnly p u = true ↔ p.isClose = false ∧ p.ack.isSome = true ∧ u = none := by
  simp [ackOnly, and_assoc]

/-- The wire image of a packet whose fields fit. -/
theorem PayloadHeader.Fits.wireImage {p : PayloadHeader} (h : p.Fits) (u : Option Bytes) :
    Qotp.wireImage p u = if ackOnly p u then ({ ack := p.ack.map Ack.rounded }, none)
      else ({ p with ack := p.ack.map Ack.rounded }, some (u.getD [])) := by
  rw [Qotp.wireImage, h.wireAck, Nat.mod_eq_of_lt h.streamID, Nat.mod_eq_of_lt h.streamOffset]

/-- A decoded packet is its own wire image, but for user data that becomes non-nil. -/
theorem OnWire.wireImage {p : PayloadHeader} {u : Option Bytes} (h : OnWire p u) :
    ∃ w, Qotp.wireImage p u = (p, w) ∧ w.getD [] = u.getD [] := by
  have hack : p.ack.map Ack.rounded = p.ack := by
    cases ha : p.ack with
    | none => rfl
    | some a => rw [Option.map_some, h.wnd a ha]
  rw [h.fits.wireImage, hack]
  split_ifs with ho
  · obtain ⟨hc, _, rfl⟩ := (ackOnly_iff p u).mp ho
    obtain ⟨_, hid, hoff⟩ := h.bare rfl
    obtain ⟨isClose, ack, id, off⟩ := p
    dsimp only at hc hid hoff
    subst hc hid hoff
    exact ⟨none, rfl, rfl⟩
  · exact ⟨_, rfl, rfl⟩

/-- Writing and reading a packet keeps it, but for the rounding of the window and for
the stream of a bare ack; reading, writing and reading again gives what was read first;
and no byte string makes the reader index out of range. -/
theorem payload_codec_round_trip (p : PayloadHeader) (u : Option Bytes) (hp : p.Fits) (d : Bytes) :
    (∃ q v, decodePayload (encodePayload p u).1 = some (.ok (q, v)) ∧ q.isClose = p.isClose ∧
      q.ack = p.ack.map Ack.rounded ∧ v.getD [] = u.getD [] ∧
      if p.isClose = false ∧ p.ack.isSome = true ∧ u = none then
        q.streamID = 0 ∧ q.streamOffset = 0 ∧ v = none
      else q.streamID = p.streamID ∧ q.streamOffset = p.streamOffset ∧ v.isSome = true) ∧
    (∀ q v, decodePayload d = some (.ok (q, v)) →
      ∃ w, decodePayload (encodePayload q v).1 = some (.ok (q, w)) ∧ w.getD [] = v.getD []) ∧
    decodePayload d ≠ none := by
  refine ⟨?_, fun q v hd => ?_, ?_⟩
  · rw [decodePayload_encodePayload, hp.wireImage]
    by_cases ho : ackOnly p u = true
    · have hbare := (ackOnly_iff p u).mp ho
      simp only [if_pos ho, if_pos hbare]
      obtain ⟨hc, _, rfl⟩ := hbare
      exact ⟨_, _, rfl, hc.symm, rfl, rfl, rfl, rfl, rfl⟩
    · simp only [if_neg ho, if_neg (fun h => ho ((ackOnly_iff p u).mpr h))]
      exact ⟨_, _, rfl, rfl, rfl, rfl, rfl, rfl, rfl⟩
  · obtain ⟨e, he⟩ | ⟨p', u', hok, hwire⟩ := decodePayload_outcome d
    · rw [he] at hd
      cases hd
    · rw [hok] at hd
      cases hd
      obtain ⟨w, hw, hbytes⟩ := hwire.wireImage
      exact ⟨w, by rw [decodePayload_encodePayload, hw], hbytes⟩
  · obtain ⟨e, he⟩ | ⟨p', u', hok, _⟩ := decodePayload_outcome d
    · rw [he]
      exact Option.some_ne_none _
    · rw [hok]
      exact Option.some_ne_none _

/-- An ack with CLOSE at a 48-bit offset. -/
def closingAck : PayloadHeader := ⟨true, some ⟨7, 2 ^ 47, 1300, 1000⟩, 9, 5⟩

theorem closingAck_round_trip : closingAck.Fits ∧
    (∃ q v, decodePayload (encodePayload closingAck none).1 = some (.ok (q, v)) ∧ q.streamID = 9 ∧
      q.ack = some ⟨7, 2 ^ 47, 1300, 960⟩ ∧ v.isSome = true) ∧ decodePayload [0, 1, 2] ≠ none := by
  have hfit : closingAck.Fits := by
    refine ⟨by decide, by decide, ?_⟩
    rintro _ ⟨⟩
    decide
  obtain ⟨⟨q, v, hd, _, hack, _, hrest⟩, _, hsafe⟩ := payload_codec_round_trip closingAck none hfit [0, 1, 2]
  rw [if_neg (by decide)] at hrest
  exact ⟨hfit, ⟨q, v, hd, hrest.1, hack.trans (by decide +kernel), hrest.2.2⟩, hsafe⟩

end Qotp
