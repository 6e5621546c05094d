import Qotp.Conn.DecodeSafe
import Qotp.Conn.Sound
import Qotp.System.Unsplit

namespace Qotp

open Framework

variable {Prv Pub : Type} {P : Primitives Prv Pub}

namespace Listener

variable {l l' : Listener Prv Pub} {d : Bytes} {rAddr now id : Nat} {fresh : Except String Prv}

/-- Before the choice of a branch nothing can go wrong. -/
theorem decode_returns (h : l.dispatch P d rAddr fresh ≠ none) : ∃ r, l.decode P d rAddr fresh = some r := by
  by_cases hlen : d.length < minPacketSize
  · exact ⟨_, if_pos hlen⟩
  obtain ⟨header, hh⟩ := exists_header (not_lt.mp hlen)
  by_cases hv : header &&& 0x1F = cryptoVersion
  · rw [decode_eq_dispatch P l (not_lt.mp hlen) hh hv]
    exact Option.ne_none_iff_exists'.mp h
  · simp [decode, hlen, hh, hv]

/-- An accepted datagram leaves the connection it names. -/
theorem decode_ok_get {dec : Decoded} (h : l.decode P d rAddr fresh = some (l', .ok dec)) :
    ∃ c, l'.connMap.get? (connIdOf d) = some c := by
  cases hg : l.connMap.get? (connIdOf d) with
  | some c =>
    obtain ⟨c', hc', _⟩ := (decode_effect P h).conn hg
    exact ⟨c', hc'⟩
  | none =>
    cases decode_opening P hg h with
    | initSnd k z key ht hk hf hkey _ hl₁ =>
      rw [hl₁, get?_setConn, if_pos rfl]
      exact ⟨_, rfl⟩
    | initCryptoSnd m z ht hk hf _ hl₁ =>
      rw [hl₁, get?_setConn, if_pos rfl]
      exact ⟨_, rfl⟩

theorem openedConn_sound (connId rAddr : Nat) (z : Prv) (idKey ep : Option Pub) (isSender w : Bool) :
    (openedConn connId rAddr z idKey ep isSender w).Sound := by
  refine ⟨?_, ?_⟩
  · exact (by decide : (SendBuffer.new sndBufferCapacity).size ≤ (SendBuffer.new sndBufferCapacity).capacity)
  · exact (by decide : 0 < ({} : Measurements).rttMinNano)

/-- What updates keep and new connections have, every connection has behind a datagram. -/
theorem decode_keeps {K : Conn Prv Pub → Prop} {res : Except String Decoded}
    (hold : ∀ c, l.connMap.get? (connIdOf d) = some c → K c) (hupd : ∀ c c', Update P l d c c' → K c → K c')
    (hnew : ∀ z idKey ep w secret, K { openedConn (connIdOf d) rAddr z idKey ep false w with sharedSecret := secret })
    (h : l.decode P d rAddr fresh = some (l', res)) : ∀ c, l'.connMap.get? (connIdOf d) = some c → K c := by
  intro c hc
  cases hg : l.connMap.get? (connIdOf d) with
  | some c₀ =>
    obtain ⟨rfl, _⟩ | ⟨c', hu, rfl, _⟩ := (decode_effect P h).named c₀ hg
    · exact hold c hc
    · rw [get?_setConn, if_pos rfl] at hc
      cases hc
      exact hupd c₀ c hu (hold c₀ hg)
  | none =>
    cases decode_opening P hg h with
    | refused e => cases hg.symm.trans hc
    | halfOpen k z e err ht hk hf hq herr =>
      rw [get?_setConn, if_pos rfl] at hc
      cases hc
      exact hnew z _ _ _ none
    | initSnd k z key ht hk hf hkey _ hl₁ =>
      rw [hl₁, get?_setConn, if_pos rfl] at hc
      cases hc
      exact hnew z _ _ _ _
    | initCryptoSnd m z ht hk hf _ hl₁ =>
      rw [hl₁, get?_setConn, if_pos rfl] at hc
      cases hc
      exact hnew z _ _ _ _

/-- Opening a datagram counts and measures nothing, and a new connection starts well. -/
theorem decode_sound {res : Except String Decoded} (hs : ∀ c, l.connMap.get? (connIdOf d) = some c → c.Sound)
    (h : l.decode P d rAddr fresh = some (l', res)) : ∀ c, l'.connMap.get? (connIdOf d) = some c → c.Sound := by
  refine decode_keeps hs (fun c c' hu hc => ?_) (fun z idKey ep w secret => ?_) h
  · cases hu <;> exact hc.congr rfl rfl
  · exact (openedConn_sound (connIdOf d) rAddr z idKey ep false w).congr rfl rfl

/-- A datagram is processed if it can be opened and its data can be stored. -/
theorem listen_total (now : Nat) (hid : connIdOf d = id) (hs : ∀ c, l.connMap.get? id = some c → c.Sound)
    (hdec : ∃ r, l.decode P d rAddr fresh = some r)
    (hpay : ∀ l₁ dec, l.decode P d rAddr fresh = some (l₁, .ok dec) → ∃ p u, payloadOf dec = some (.ok (p, u)) ∧
      ∀ c, l.HasBuffersOf id c → c.rcv.Stores u →
        ∃ r, (c.rcv.stream (c.storedID p.streamID)).insert p.streamOffset now (u.getD []) = some r) :
    ∃ l' r, l.listen P (.datagram d rAddr) fresh now = some (l', r) ∧ ∀ c, l'.connMap.get? id = some c → c.Sound := by
  subst hid
  unfold listen
  dsimp only
  split_ifs
  · exact ⟨l, _, rfl, hs⟩
  obtain ⟨⟨l₁, res⟩, hdec⟩ := hdec
  have hsound := decode_sound hs hdec
  rw [hdec]
  dsimp only [Option.bind_eq_bind, Option.bind_some]
  cases res with
  | error e => exact ⟨l₁, _, rfl, hsound⟩
  | ok dec =>
    obtain ⟨c₀, hc₀⟩ := decode_ok_get hdec
    obtain ⟨p, u, hp, hins⟩ := hpay l₁ dec hdec
    dsimp only
    unfold deliver
    rw [((decode_effect P hdec).result dec rfl).1, hc₀, hp]
    dsimp only [Option.bind_eq_bind, Option.bind_some]
    generalize hc₁ : (if now > c₀.measurements.lastReadTimeNano then _ else c₀) = c₁
    have hsound₁ : c₁.Sound := by
      rw [← hc₁]
      split_ifs
      · exact ⟨(hsound c₀ hc₀).room, (hsound c₀ hc₀).rttMin⟩
      · exact hsound c₀ hc₀
    have hheld : l.HasBuffersOf (connIdOf d) c₁ := by
      refine ((decode_holds hdec).1 c₀ hc₀).sameBuffers ?_
      rw [← hc₁]
      split_ifs <;> exact ⟨rfl, rfl, rfl, rfl⟩
    obtain ⟨c₂, hd, hsound₂⟩ := Conn.decode_total hsound₁ p u d.length now (hins c₁ hheld)
    rw [hd]
    refine ⟨_, _, rfl, fun c hc => ?_⟩
    rw [get?_setConn, if_pos rfl] at hc
    cases hc
    unfold markHandshake
    split_ifs <;> exact hsound₂.congr rfl rfl

end Listener

/-- The reader that a message of the session is for opens it or refuses it. -/
theorem SessionMsg.decode_returns (hP : P.Correct) {id : Nat} {a idRcv : Prv} {mtu : Int} {b : Bool} {o : Conn.Outgoing}
    (hmtu : mtu ≤ 65507) (h : SessionMsg P id a idRcv mtu b o) {l : Listener Prv Pub} (hl : 97 ≤ l.mtu)
    (hrcv : b = true → l.prvKeyId = idRcv) (rAddr : Nat) (fresh : Except String Prv) :
    ∃ r, l.decode P o.encData rAddr fresh = some r := by
  have htype := h.msgType_eq
  have hlen := encodePayload_length_ge o.header o.userData
  by_cases hshort : o.encData.length < minPacketSize
  · exact ⟨_, if_pos hshort⟩
  refine Listener.decode_returns ?_
  unfold Listener.dispatch
  rw [htype]
  cases h with
  | initSnd idSnd hm _ _ =>
    rw [hm]
    exact Listener.decodeInitSnd_ne_none hl
  | initCryptoSnd idSnd key sn hm hkey hfit he =>
    rw [hm]
    dsimp only
    rw [Ne, Listener.decodeInitCryptoSnd_eq_none, decryptInitCryptoSnd_eq_none P hl]
    rintro ⟨_, text, ⟨ep, idKey, key', m, hep, _, hkey', hopen, rfl⟩, hbad⟩
    rw [he, initCryptoSndHeader, List.append_assoc _ (P.bytes (P.publicKey idSnd)),
      field_append (by simp) (by rw [P.bytes_length]), hP.newPublicKey_bytes] at hep
    cases hep
    rw [hrcv rfl, hP.ecdh_symm hkey] at hkey'
    cases hkey'
    rw [he, field_front (initCryptoSndHeader_length _ _), List.drop_left' (initCryptoSndHeader_length _ _)] at hopen
    rw [(chainedDecrypt_text hP (hP.ecdh_length _ _ _ hkey) hopen).1] at hbad
    have hnone := stripFiller_eq_none.mpr hbad
    rw [stripFiller_paddedText hfit hmtu] at hnone
    cases hnone
  | initRcv z key sn hm hkey he =>
    have hlong : 103 ≤ o.encData.length := by
      rw [he, List.length_append, initRcvHeader_length, sealedBody_length hP (hP.ecdh_length _ _ _ hkey)]
      exact Nat.add_le_add_left (Nat.add_le_add_right hlen 22) 73
    rw [hm]
    dsimp only
    rw [Ne, Listener.decodeInitRcv_eq_none]
    rintro ⟨c, _, hc⟩
    exact absurd ((decryptInitRcv_eq_none P).mp hc).2.1 (not_lt.mpr hlong)
  | initCryptoRcv z key sn hm hkey he =>
    have hlong : 71 ≤ o.encData.length := by
      rw [he, List.length_append, initCryptoRcvHeader_length, sealedBody_length hP (hP.ecdh_length _ _ _ hkey)]
      exact Nat.add_le_add_left (Nat.add_le_add_right hlen 22) 41
    rw [hm]
    dsimp only
    rw [Ne, Listener.decodeInitCryptoRcv_eq_none]
    rintro ⟨c, _, hc⟩
    exact absurd ((decryptInitCryptoRcv_eq_none P).mp hc).2.1 (not_lt.mpr hlong)
  | data hm ht =>
    rw [hm]
    exact Listener.decodeDataMsg_ne_none (not_lt.mp hshort)

namespace Handshake

variable {id : Nat} {a : Prv} {cfg : Bool → ListenerCfg Prv} {s t : Handshake Prv Pub} {b : Bool} {c : Conn Prv Pub}

/-- A dialer that seals its request knows whom for. -/
def Pinned (id : Nat) (s : Handshake Prv Pub) : Prop :=
  ∀ c, (s.side true).connMap.get? id = some c → c.isWithCryptoOnInit = true → c.pubKeyIdRcv ≠ none

theorem step_pinned {op : HandshakeOp Prv Pub} (h : s.Pinned id) (hc : ∃ c, (s.side true).connMap.get? id = some c)
    (hs : s.step P id op = some t) : t.Pinned id := by
  have hkeep : ∀ {c c' : Conn Prv Pub}, (s.side true).connMap.get? id = some c →
      c'.isWithCryptoOnInit = c.isWithCryptoOnInit → (c'.pubKeyIdRcv = c.pubKeyIdRcv ∨ c'.pubKeyIdRcv ≠ none) →
      c'.isWithCryptoOnInit = true → c'.pubKeyIdRcv ≠ none := by
    intro c c' hc hw hid hw'
    obtain hid | hid := hid
    · rw [hid]
      exact h c hc (hw.symm.trans hw')
    · exact hid
  intro c' hc'
  cases op with
  | call d op =>
    simp only [step] at hs
    split_ifs at hs with hop
    obtain ⟨c, hget, hs⟩ := Option.bind_eq_some_iff.mp hs
    obtain ⟨e, he, rfl⟩ := Option.map_eq_some_iff.mp hs
    rw [get?_update, Listener.get?_setConn, if_pos rfl] at hc'
    split_ifs at hc' with hd
    · subst hd
      cases hc'
      obtain ⟨k, now, w, out, r, hf, _⟩ | ⟨⟨_, _, _, _, _, _, _, hsame⟩, _⟩ := Endpoint.step_local hop he
      · obtain ⟨_, _, _, _, _, _, _, _, hfields⟩ := Conn.flush_fields P _ hf
        refine hkeep hget ?_ (.inl ?_) <;> rw [hfields]
      · refine hkeep hget ?_ (.inl ?_) <;> rw [hsame]
    · exact h c' hc'
  | receive d i rAddr fresh now =>
    obtain ⟨z, _, hs⟩ := Option.bind_eq_some_iff.mp hs
    obtain ⟨⟨l', r⟩, hl, rfl⟩ := Option.map_eq_some_iff.mp hs
    rw [get?_update] at hc'
    split_ifs at hc' with hd
    · subst hd
      obtain ⟨c, hget⟩ := hc
      obtain ⟨c₁, c₂, c₃, hcase, ⟨_, _, _, _, _, _, _, rfl⟩, hg', hmark⟩ := Listener.listen_known hget hl
      cases hg'.symm.trans hc'
      have h₁ : c₁.isWithCryptoOnInit = c.isWithCryptoOnInit ∧
          (c₁.pubKeyIdRcv = c.pubKeyIdRcv ∨ c₁.pubKeyIdRcv ≠ none) := by
        obtain rfl | ⟨_, hu⟩ := hcase
        · exact ⟨rfl, .inl rfl⟩
        · cases hu with
          | initRcv m ht hd => exact ⟨rfl, .inr (Option.some_ne_none _)⟩
          | initSnd | initCryptoSnd | initCryptoRcv | data => exact ⟨rfl, .inl rfl⟩
      obtain rfl | ⟨_, _, rfl, _⟩ := hmark <;> exact hkeep hget h₁.1 h₁.2
    · exact h c' hc'
  | others d connMap =>
    cases hs
    rw [get?_update] at hc'
    split_ifs at hc' with hd
    · rw [get?_withOthers, ← hd] at hc'
      exact h c' hc'
    · exact h c' hc'

/-- Every payload parses at the other end. -/
theorem payload_ok (o : Conn.Outgoing) : ∃ p u, o.payload = some (.ok (p, u)) := by
  unfold Conn.Outgoing.payload
  split_ifs
  · exact ⟨_, _, rfl⟩
  · exact ⟨_, _, decodePayload_encodePayload _ _⟩

theorem Phase.dialer (h : Phase P id a s) : ∃ c, (s.side true).connMap.get? id = some c := by
  cases h with
  | dialed c hget hdone hkeyed hnone hsent hquiet => exact ⟨c, hget⟩
  | opened y key ha hkey hconn hsent =>
    obtain ⟨c, hc, _⟩ := hconn true
    exact ⟨c, hc⟩

/-- Whichever datagram a side would write next, it has the key for it. -/
theorem Trusted.holdsKeys (h : Trusted P id a cfg s) (hpin : s.Pinned id) (hget : (s.side b).connMap.get? id = some c) :
    c.HoldsKeys := by
  have hspeaks := h.speaks b c hget
  unfold Conn.HoldsKeys Conn.msgType
  cases hd : c.isHandshakeDoneOnRcv with
  | true =>
    simp only [if_true]
    cases h.phase with
    | dialed c₀ hget₀ hdone hkeyed hnone hsent hquiet =>
      cases b with
      | true =>
        cases hget₀.symm.trans hget
        rw [hdone] at hd
        cases hd
      | false => cases hnone.symm.trans hget
    | opened y key ha hkey hconn hsent =>
      obtain ⟨c', hc', hk⟩ := hconn b
      cases hc'.symm.trans hget
      rw [hk.secret fun _ => hd]
      exact Option.some_ne_none _
  | false =>
    rw [hspeaks.sender]
    cases b with
    | true =>
      cases hw : c.isWithCryptoOnInit with
      | true => simpa using hpin c hget hw
      | false => simp
    | false =>
      have hep : c.pubKeyEpRcv ≠ none := by
        rw [hspeaks.listener rfl]
        exact Option.some_ne_none _
      cases c.isWithCryptoOnInit <;> simpa using hep

end Handshake

namespace Session

variable {id : Nat} {a : Prv} {cfg : Bool → ListenerCfg Prv} {s t : Session Prv Pub} {b : Bool}

/-- The calls that exist: of a connection that is there, and of a datagram that was sent. -/
def Enabled (id : Nat) (s : Session Prv Pub) : HandshakeOp Prv Pub → Prop
  | .call b op => op.isLocal = true ∧ ((s.side b).connMap.get? id).isSome = true
  | .receive b i _ _ _ => i < (s.sent !b).length
  | .others _ _ => True

instance (s : Session Prv Pub) : ∀ op, Decidable (s.Enabled id op)
  | .call b op => inferInstanceAs (Decidable (op.isLocal = true ∧ ((s.side b).connMap.get? id).isSome = true))
  | .receive b i _ _ _ => inferInstanceAs (Decidable (i < (s.sent !b).length))
  | .others _ _ => isTrue trivial

/-- Nothing is missing that a call relies on. -/
structure Alive (P : Primitives Prv Pub) (id : Nat) (a : Prv) (cfg : Bool → ListenerCfg Prv) (s : Session Prv Pub) :
    Prop where
  intact : Intact P id a cfg s
  sound : ∀ b c, (s.side b).connMap.get? id = some c → c.Sound
  pinned : s.Pinned id

/-- What arrives can be stored. -/
theorem Intact.stores (h : Intact P id a cfg s) {i now : Nat} {p : PayloadHeader} {u : Option Bytes}
    (hr : s.received b i = some (p, u)) (hlen : (s.accepted (!b) p.streamID).length < 2 ^ 63) {c : Conn Prv Pub}
    (hc : (s.side b).HasBuffersOf id c) (hst : c.rcv.Stores u) :
    ∃ r, (c.rcv.stream (c.storedID p.streamID)).insert p.streamOffset now (u.getD []) = some r := by
  obtain ⟨ch, hlink, hcons, B, hcut⟩ := h
  have hsame := (hlink.models b).sameBuffers hc
  have hkeyed : c.StreamsKeyed := (hcons.base.side b).keyed.congr hsame.streams
  rw [hkeyed.storedID]
  have hrec : (ch.link b).received i = some (p, u) := (hlink.received_eq b i).trans hr
  have hrcv : c.rcv = (ch.side b).conn.rcv := hsame.rcv
  have hat : IsAt ((ch.side !b).accepted p.streamID) p.streamOffset (u.getD []) :=
    ((hcons.base.link b).received_genuine hrec).data hst.1
  have hsafe := (hcut.rcv b p.streamID).insertSafe (hcut.received hcons.base hrec hst.1) (List.length_pos_iff.mpr hst.1)
  rw [← (hlink.models (!b)).accepted] at hlen
  have hins : ∃ s' delta st, ((ch.side b).conn.rcv.stream p.streamID).insert p.streamOffset now (u.getD []) =
      some (s', delta, st) ∧ RcvBuffer.Inserted _ _ _ _ s' := (hcons.tiled b p.streamID).insert hlen hst.1 hat hsafe
  obtain ⟨s', delta, st, hins, _⟩ := hins
  rw [hrcv]
  exact ⟨_, hins⟩

section Step

variable (hP : P.Correct) (hid : id = keyConnId P (P.publicKey a)) (hmtu : (cfg true).mtu ≤ 65507)
  (hfit : ∀ b, 119 ≤ (cfg b).mtu ∧ (cfg b).mtu ≤ 65535)

include hP hfit in
theorem Alive.call_total (h : Alive P id a cfg s) {op : ConnOp Prv Pub} (hop : op.isLocal = true)
    (hc : ((s.side b).connMap.get? id).isSome = true) :
    ∃ t, s.step P id (.call b op) = some t ∧ ∀ d c, (t.side d).connMap.get? id = some c → c.Sound := by
  obtain ⟨c, hget⟩ := Option.isSome_iff_exists.mp hc
  obtain ⟨ch, hlink, hcons, _⟩ := h.intact
  have hmtu' : 119 ≤ (s.side b).cfg.mtu ∧ (s.side b).cfg.mtu ≤ 65535 := by
    rw [hlink.trusted.settings b]
    exact hfit b
  have hheld : SndHeld (ch.side b).accepted (ch.Arrived !b) c.snd := by
    rw [← (hlink.models b).conn c hget]
    exact hcons.held b
  obtain ⟨e, he, hs⟩ := Endpoint.step_total (e := { conn := c, accepted := s.accepted b, delivered := s.delivered b }) hP hmtu'
    hheld (hlink.trusted.holdsKeys h.pinned hget) (h.sound b c hget) hop
  refine ⟨_, by simp only [step, if_pos hop, call, hget, Option.bind_some, he, Option.map_some]; rfl, fun d c' hc' => ?_⟩
  rw [Handshake.get?_update, Listener.get?_setConn, if_pos rfl] at hc'
  split_ifs at hc' with hd
  · cases hc'
    exact hs
  · exact h.sound d c' hc'

include hP hid hmtu hfit in
theorem Alive.receive_total (h : Alive P id a cfg s) {i rAddr now : Nat} {fresh : Except String Prv}
    (hi : i < (s.sent !b).length) (hok : s.Fits id (.receive b i rAddr fresh now))
    (hw : s.Unsplit id (.receive b i rAddr fresh now)) :
    ∃ t, s.step P id (.receive b i rAddr fresh now) = some t ∧
      ∀ d c, (t.side d).connMap.get? id = some c → c.Sound := by
  obtain ⟨ch, hlink, _⟩ := h.intact
  have htrust := hlink.trusted
  have hlt : id < 2 ^ 64 := hid ▸ keyConnId_lt P _
  obtain ⟨x, hx⟩ : ∃ x, (s.sent !b)[i]? = some x := ⟨_, List.getElem?_eq_getElem hi⟩
  have hmem := List.mem_of_getElem? hx
  have hl : 97 ≤ (s.side b).mtu := by
    have hcfg : (s.side b).mtu = (cfg b).mtu := congrArg ListenerCfg.mtu (htrust.settings b)
    have := (hfit b).1
    omega
  have hdec := (htrust.sent (!b) x hmem).decode_returns hP hmtu hl (fun hb => by
    obtain rfl : b = false := by simpa using hb
    exact congrArg ListenerCfg.prvKeyId (htrust.settings false)) rAddr fresh
  obtain ⟨l', r, hlisten, hsound⟩ := Listener.listen_total now (htrust.phase.connIdOf_sent hlt hmem) (h.sound b) hdec
    fun l₁ dec hok => by
      have hpay := htrust.payload hP hlt hmtu hmem hok
      obtain ⟨p, u, hread⟩ := Handshake.payload_ok x.2
      have hr : s.received b i = some (p, u) := by
        unfold received
        rw [hx, Option.bind_some, hread]
        rfl
      exact ⟨p, u, hpay.trans hread, fun c hc hst => h.intact.stores hr (hw _ hr) hc hst⟩
  refine ⟨_, by simp only [step, Handshake.step, hx, hok.readFrom hx, Option.bind_some, hlisten, Option.map_some]; rfl, fun d c hc => ?_⟩
  rw [Handshake.get?_update] at hc
  split_ifs at hc with hd
  · exact hsound c hc
  · exact h.sound d c hc

include hP hid hmtu hfit in
theorem Alive.step (s : Session Prv Pub) (op : HandshakeOp Prv Pub) (h : Alive P id a cfg s)
    (hok : (s.Fits id op ∧ s.Unsplit id op) ∧ s.Enabled id op) : ∃ t, s.step P id op = some t ∧ Alive P id a cfg t := by
  suffices hstep : ∃ t, s.step P id op = some t ∧ ∀ d c, (t.side d).connMap.get? id = some c → c.Sound by
    obtain ⟨t, ht, hsound⟩ := hstep
    have hhand : s.toHandshake.step P id op = some t.toHandshake := by
      cases op with
      | call b op => exact (step_called ht).handshake
      | receive b i rAddr fresh now =>
        obtain ⟨t', ht', rfl⟩ := Option.map_eq_some_iff.mp ht
        exact ht'
      | others b connMap =>
        cases ht
        rfl
    obtain ⟨ch, hlink, _⟩ := h.intact
    exact ⟨t, ht, h.intact.step hP hid hmtu hfit s op t ⟨hok.1.1, nofun, fun _ => hok.1.2⟩ ht, hsound,
      Handshake.step_pinned h.pinned hlink.trusted.phase.dialer hhand⟩
  cases op with
  | call b op => exact h.call_total hP hfit hok.2.1 hok.2.2
  | receive b i rAddr fresh now => exact h.receive_total hP hid hmtu hfit hok.2 hok.1.1 hok.1.2
  | others b connMap =>
    refine ⟨_, rfl, fun d c hc => ?_⟩
    rw [Handshake.get?_update] at hc
    split_ifs at hc with hd
    · rw [Handshake.get?_withOthers, ← hd] at hc
      exact h.sound d c hc
    · exact h.sound d c hc

end Step

theorem alive_start {d₀ d l : Listener Prv Pub} {c : Conn Prv Pub} (hdial : Dialed P d₀ d l a c)
    (hl : l.connMap.get? c.connId = none) : Alive P c.connId a (settings d l) (start d l) := by
  obtain ⟨_, hfresh, hstart⟩ := mirrors_start hdial hl
  obtain ⟨rAddr, idKey, withCrypto, _, hget, hc, hpin⟩ := hdial.conn
  refine ⟨⟨_, hstart, Channel.conserved_fresh fun _ => hfresh, _, Channel.uncut_fresh fun _ => hfresh⟩,
    fun b c' hc' => ?_, fun c' hc' hw => ?_⟩
  · cases b with
    | true =>
      cases hget.symm.trans hc'
      rw [hc]
      exact Listener.openedConn_sound ..
    | false => cases hl.symm.trans hc'
  · cases hget.symm.trans hc'
    rw [hc] at hw ⊢
    obtain ⟨hplain, _⟩ | hpin := hpin
    · cases hplain.symm.trans hw
    · change idKey ≠ none
      rw [hpin]
      exact Option.some_ne_none _

/-- Two honest ends never bring each other down: whatever the network does to their datagrams and their sockets to
their writes, every call and every datagram is processed, as long as no packet has to be split. -/
theorem session_never_panics (hP : P.Correct) (d₀ d l : Listener Prv Pub) (c : Conn Prv Pub)
    (hdial : Dialed P d₀ d l a c) (hl : l.connMap.get? c.connId = none) (hd : 119 ≤ d.mtu ∧ d.mtu ≤ 65507)
    (hm : 119 ≤ l.mtu ∧ l.mtu ≤ 65535) (ops : List (HandshakeOp Prv Pub))
    (hok : Along (step P c.connId)
      (fun s op => (s.Fits c.connId op ∧ s.Unsplit c.connId op) ∧ s.Enabled c.connId op) (start d l) ops) :
    ∃ t, run (step P c.connId) (start d l) ops = some t := by
  obtain ⟨hid, _⟩ := mirrors_start hdial hl
  obtain ⟨t, ht, _⟩ := run_total_along (Alive.step hP hid hd.2 (settings_mtu hd hm)) (alive_start hdial hl) hok
  exact ⟨t, ht⟩

theorem retried_enabled : Along (step plainHonest zeroRttConn.connId)
    (fun s op => (s.Fits zeroRttConn.connId op ∧ s.Unsplit zeroRttConn.connId op) ∧ s.Enabled zeroRttConn.connId op)
    (start (zeroRttDialer.setConn zeroRttConn.connId zeroRttConn) zeroRttListener) retriedOps := by decide +kernel

theorem retried_returns : ∃ t, run (step plainHonest zeroRttConn.connId)
    (start (zeroRttDialer.setConn zeroRttConn.connId zeroRttConn) zeroRttListener) retriedOps = some t :=
  session_never_panics plainHonest_correct _ _ _ _ zeroRtt_dialed rfl (by decide) (by decide) retriedOps retried_enabled

end Session

end Qotp
