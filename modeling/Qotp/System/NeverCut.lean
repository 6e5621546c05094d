import Qotp.Conn.Answer
import Qotp.Conn.DatagramFits
import Qotp.System.SessionRefine

namespace Qotp

open Framework

variable {Prv Pub : Type} {P : Primitives Prv Pub}

/-- What a sealed message spends beside its payload is what the sender reckons with. -/
theorem calcCryptoOverheadWithData_eq (ack : Option Ack) (offset : Nat) :
    calcCryptoOverheadWithData .initRcv ack offset = payloadOverhead ack offset + 95 ∧
    calcCryptoOverheadWithData .initCryptoRcv ack offset = payloadOverhead ack offset + 63 ∧
    calcCryptoOverheadWithData .data ack offset = payloadOverhead ack offset + 31 := ⟨rfl, rfl, rfl⟩

namespace SessionMsg

variable {id : Nat} {a idRcv : Prv} {mtu room : Int} {b : Bool} {o : Conn.Outgoing}

/-- A request is filled up to the MTU, whatever it carries. -/
theorem request_length (hP : P.Correct) (h : SessionMsg P id a idRcv mtu true o) (hm : o.msgType ≠ .data) :
    (o.encData.length : Int) = mtu := by
  cases h with
  | initSnd idSnd hm hmtu he =>
    rw [he, initSndText_length]
    omega
  | initCryptoSnd idSnd key sn hm hkey hfit he =>
    have hlen := paddedText_length hfit
    rw [he, List.length_append, sealedBody_length hP (hP.ecdh_length _ _ _ hkey), initCryptoSndHeader_length]
    simp only [footerDataSize, snSize, macSize]
    omega
  | data hd ht => exact absurd hd hm

/-- Where the data has room, the message is within the MTU. -/
theorem length_le (hP : P.Correct) (h : SessionMsg P id a idRcv mtu b o) (hmtu : b = true → room = mtu)
    (hfit : o.msgType ≠ .initSnd → o.Fits room)
    (hdata : o.msgType = .data → ∃ sn e isSender key, key.length = 32 ∧ o.encData = dataHeader id ++
      sealedBody P sn e isSender key (dataHeader id) (encodePayload o.header o.userData).1) :
    (o.encData.length : Int) ≤ room := by
  have hpay := encodePayload_length_le o.header o.userData
  obtain ⟨hr, hcr, hd⟩ := calcCryptoOverheadWithData_eq o.header.ack o.header.streamOffset
  have hroom : o.msgType ≠ .initSnd → ((o.userData.getD []).length : Int) ≤
      room - calcCryptoOverheadWithData o.msgType o.header.ack o.header.streamOffset := by
    intro hne
    have hle := hfit hne
    rwa [Conn.Outgoing.Fits, maxDataFor, if_pos hne] at hle
  have hrequest : b = true → o.msgType ≠ .data → (o.encData.length : Int) ≤ room := by
    intro hb hm
    rw [hmtu hb]
    subst hb
    exact (h.request_length hP hm).le
  cases h with
  | initSnd idSnd hm hlow he => exact hrequest rfl (by rw [hm]; decide)
  | initCryptoSnd idSnd key sn hm hkey hle he => exact hrequest rfl (by rw [hm]; decide)
  | initRcv z key sn hm hkey he =>
    rw [hm] at hroom
    have hle := hroom (by decide)
    rw [he, List.length_append, sealedBody_length hP (hP.ecdh_length _ _ _ hkey), initRcvHeader_length]
    simp only [footerDataSize, snSize, macSize]
    omega
  | initCryptoRcv z key sn hm hkey he =>
    rw [hm] at hroom
    have hle := hroom (by decide)
    rw [he, List.length_append, sealedBody_length hP (hP.ecdh_length _ _ _ hkey), initCryptoRcvHeader_length]
    simp only [footerDataSize, snSize, macSize]
    omega
  | data hm ht =>
    rw [hm] at hroom
    have hle := hroom (by decide)
    obtain ⟨sn, e, isSender, key, hk, he⟩ := hdata hm
    rw [he, List.length_append, sealedBody_length hP hk, dataHeader_length]
    simp only [footerDataSize, snSize, macSize]
    omega

end SessionMsg

namespace Session

variable {id : Nat} {a : Prv} {cfg : Bool → ListenerCfg Prv} {s t : Session Prv Pub}

/-- Two ends with one MTU. -/
theorem settings_one {d l : Listener Prv Pub} (hd : 119 ≤ d.mtu ∧ d.mtu ≤ 65507) (hm : l.mtu = d.mtu) :
    (∀ b, 119 ≤ (settings d l b).mtu ∧ (settings d l b).mtu ≤ 65535) ∧
      ∀ b, (settings d l (!b)).mtu = (settings d l b).mtu := by
  refine ⟨settings_mtu hd ?_, fun b => ?_⟩
  · rw [hm]
    exact ⟨hd.1, hd.2.trans (by decide)⟩
  · cases b with
    | true => exact hm
    | false => exact hm.symm

/-- Whatever was written had room for its data. -/
def Roomy (cfg : Bool → ListenerCfg Prv) (s : Session Prv Pub) : Prop :=
  ∀ b, ∀ x ∈ s.sent b, x.2.msgType ≠ .initSnd → x.2.Fits (cfg b).mtu

/-- No datagram is longer than the MTU of its sender. -/
theorem Roomy.sized (hP : P.Correct) (h : s.Roomy cfg) (htrust : Handshake.Trusted P id a cfg s.toHandshake) (b : Bool)
    {x : Nat × Conn.Outgoing} (hx : x ∈ s.sent b) : (x.2.encData.length : Int) ≤ (cfg b).mtu := by
  refine (htrust.sent b x hx).length_le hP (fun hb => by rw [hb]) (h b x hx) fun hm => ?_
  cases htrust.phase with
  | dialed c₀ hget hdone hkeyed hnone hsent hquiet =>
    cases b with
    | true => exact absurd hm (hsent x hx).2.1
    | false =>
      rw [hquiet] at hx
      cases hx
  | opened y key ha hkey hconn hsent =>
    obtain ⟨hne, _⟩ | ⟨sn, hd⟩ := (hsent b x hx).form
    · exact absurd hm hne
    · exact ⟨sn, x.1, b, key, hP.ecdh_length _ _ _ (hkey true), hd⟩

/-- Between two sides with one MTU every datagram fits into the buffer it is read into. -/
theorem Roomy.fits_receive (hP : P.Correct) (heq : ∀ b, (cfg (!b)).mtu = (cfg b).mtu) (h : s.Roomy cfg)
    (htrust : Handshake.Trusted P id a cfg s.toHandshake) (b : Bool) (i rAddr : Nat) (fresh : Except String Prv) (now : Nat) :
    s.Fits id (.receive b i rAddr fresh now) := by
  intro x hx
  have hlen := h.sized hP htrust (!b) (List.mem_of_getElem? hx)
  rw [heq b, ← htrust.settings b] at hlen
  exact hlen

/-- What a call writes has room for its data, and nothing else writes. -/
theorem Roomy.step (hfit : ∀ b, 119 ≤ (cfg b).mtu ∧ (cfg b).mtu ≤ 65535) (h : s.Roomy cfg) {ch : Channel Prv Pub}
    (hlink : Mirrors P id a cfg s ch) (hinv : ch.Inv) {op : HandshakeOp Prv Pub} (hok : s.Fits id op)
    (hs : s.step P id op = some t) : t.Roomy cfg := by
  cases op with
  | call b op =>
    have hcall := step_called hs
    obtain ⟨c, c', out, hcalled⟩ := Handshake.step_call hcall.handshake
    obtain ⟨e', he', hm⟩ := hcall.endpoint _ (hlink.models b)
    rw [hlink.trusted.settings b] at he'
    intro d x hx
    obtain hx' | ⟨rfl, _⟩ := hcalled.mem_sent hx
    · exact h d x hx'
    have hmem : x.2 ∈ e'.sent := by
      rw [hm.sent]
      exact List.mem_map_of_mem hx
    obtain hold | hnew := Endpoint.step_fits (hfit d) (hinv.side d) (hlink.fits_call hok).offsetsFit he' x.2 hmem
    · rw [(hlink.models d).sent] at hold
      obtain ⟨y, hy, hyx⟩ := List.mem_map.mp hold
      rw [← hyx]
      exact h d y hy
    · exact hnew
  | receive b i rAddr fresh now =>
    obtain ⟨h', hstep, rfl⟩ := Option.map_eq_some_iff.mp hs
    obtain ⟨x, hx, hl⟩ := Option.bind_eq_some_iff.mp hstep
    obtain ⟨r, hr, rfl⟩ := Option.map_eq_some_iff.mp hl
    exact h
  | others b connMap =>
    cases hs
    exact h

/-- The calls fit; nothing is asked of what is read. -/
def CallsFit (id : Nat) (s : Session Prv Pub) : HandshakeOp Prv Pub → Prop
  | .receive _ _ _ _ _ => True
  | op => s.Fits id op

instance (s : Session Prv Pub) : ∀ op, Decidable (s.CallsFit id op)
  | .receive _ _ _ _ _ => isTrue trivial
  | .call b op => inferInstanceAs (Decidable (s.Fits id (.call b op)))
  | .others b connMap => inferInstanceAs (Decidable (s.Fits id (.others b connMap)))

theorem Fits.callsFit {op : HandshakeOp Prv Pub} (h : s.Fits id op) : s.CallsFit id op := by
  cases op with
  | receive b i rAddr fresh now => trivial
  | call b op => exact h
  | others b connMap => exact h

/-- Behind the session stands a channel, and every datagram had room. -/
def Fitted (P : Primitives Prv Pub) (id : Nat) (a : Prv) (cfg : Bool → ListenerCfg Prv) (s : Session Prv Pub) : Prop :=
  Backed P id a cfg s ∧ s.Roomy cfg

theorem fitted_start {d₀ d l : Listener Prv Pub} {c : Conn Prv Pub} (h : Dialed P d₀ d l a c)
    (hl : l.connMap.get? c.connId = none) :
    c.connId = keyConnId P (P.publicKey a) ∧ Fitted P c.connId a (settings d l) (start d l) := by
  obtain ⟨hid, hback⟩ := backed_start h hl
  exact ⟨hid, hback, fun _ => nofun⟩

section Run

variable (hP : P.Correct) (heq : ∀ b, (cfg (!b)).mtu = (cfg b).mtu)

include hP heq

theorem Fitted.fits (h : Fitted P id a cfg s) {op : HandshakeOp Prv Pub} (hok : s.CallsFit id op) : s.Fits id op := by
  obtain ⟨⟨ch, hlink, _⟩, hroom⟩ := h
  cases op with
  | receive b i rAddr fresh now => exact hroom.fits_receive hP heq hlink.trusted b i rAddr fresh now
  | call b op => exact hok
  | others b connMap => exact hok

/-- A step of the session is a run of the channel behind it. -/
theorem Fitted.step_mirrors (hid : id = keyConnId P (P.publicKey a)) (hmtu : (cfg true).mtu ≤ 65507)
    (hfit : ∀ b, 119 ≤ (cfg b).mtu ∧ (cfg b).mtu ≤ 65535) {op : HandshakeOp Prv Pub} {ch : Channel Prv Pub}
    (hlink : Mirrors P id a cfg s ch) (hinv : ch.Inv) (hroom : s.Roomy cfg) (hok : s.CallsFit id op)
    (hs : s.step P id op = some t) :
    ∃ chops ch', Along (Channel.step P cfg) Channel.Fits ch chops ∧ run (Channel.step P cfg) ch chops = some ch' ∧
      Mirrors P id a cfg t ch' ∧ t.Roomy cfg := by
  have hfits := Fitted.fits hP heq ⟨⟨ch, hlink, hinv⟩, hroom⟩ hok
  have hmeets : s.Meets id False False op := ⟨hfits, nofun, nofun⟩
  obtain ⟨chops, ch', hal, hrun, hlink'⟩ := Mirrors.step hP hid hmtu s op t ch hlink hmeets hs
  exact ⟨chops, ch', along_mono (fun _ _ h => h.1) hal, hrun, hlink', hroom.step hfit hlink hinv hfits hs⟩

theorem Fitted.step (hid : id = keyConnId P (P.publicKey a)) (hmtu : (cfg true).mtu ≤ 65507)
    (hfit : ∀ b, 119 ≤ (cfg b).mtu ∧ (cfg b).mtu ≤ 65535) (s : Session Prv Pub) (op : HandshakeOp Prv Pub)
    (t : Session Prv Pub) (h : Fitted P id a cfg s) (hok : s.CallsFit id op) (hs : s.step P id op = some t) :
    Fitted P id a cfg t := by
  have hfits := h.fits hP heq hok
  obtain ⟨hback, hroom⟩ := h
  refine ⟨hback.step hP hid hmtu hfit s op t hfits hs, ?_⟩
  obtain ⟨ch, hlink, hinv⟩ := hback
  exact hroom.step hfit hlink hinv hfits hs

end Run

/-- Between two ends with one MTU nothing is ever cut: whatever is sent, sent again behind another ack or with
another message type, split or filled up, its datagram is within the MTU, and `Listen` reads it whole. -/
theorem never_cut (hP : P.Correct) (d₀ d l : Listener Prv Pub) (c : Conn Prv Pub) (hdial : Dialed P d₀ d l a c)
    (hl : l.connMap.get? c.connId = none) (hd : 119 ≤ d.mtu ∧ d.mtu ≤ 65507) (hm : l.mtu = d.mtu)
    (ops : List (HandshakeOp Prv Pub)) (hok : Along (step P c.connId) (CallsFit c.connId) (start d l) ops) :
    Along (step P c.connId) (Fits c.connId) (start d l) ops ∧
      ∀ t, run (step P c.connId) (start d l) ops = some t → ∀ b, ∀ x ∈ t.sent b, (x.2.encData.length : Int) ≤ d.mtu := by
  obtain ⟨hid, hfitted⟩ := fitted_start hdial hl
  obtain ⟨hfit, heq⟩ := settings_one hd hm
  have hstep := Fitted.step hP heq hid hd.2 hfit
  refine ⟨along_inv hstep (fun s op h hok => h.fits hP heq hok) hfitted hok, fun t hrun b x hx => ?_⟩
  obtain ⟨⟨ch, hlink', _⟩, hroom⟩ := run_inv_along hstep hfitted hok hrun
  have hlen := hroom.sized hP hlink'.trusted b hx
  cases b with
  | true => exact hlen
  | false => exact hlen.trans hm.le

theorem zeroRtt_callsFit : Along (step plainHonest zeroRttConn.connId) (CallsFit zeroRttConn.connId)
    (start (zeroRttDialer.setConn zeroRttConn.connId zeroRttConn) zeroRttListener) zeroRttOps := by decide +kernel

theorem zeroRtt_never_cut : ∃ t, run (step plainHonest zeroRttConn.connId)
      (start (zeroRttDialer.setConn zeroRttConn.connId zeroRttConn) zeroRttListener) zeroRttOps = some t ∧
    ∀ b, ∀ x ∈ t.sent b, (x.2.encData.length : Int) ≤ 200 := by
  obtain ⟨t, ht, _⟩ := zeroRtt_run
  have hcut := never_cut plainHonest_correct _ _ _ _ zeroRtt_dialed rfl (by decide) rfl zeroRttOps zeroRtt_callsFit
  exact ⟨t, ht, hcut.2 t ht⟩

end Session

end Qotp
