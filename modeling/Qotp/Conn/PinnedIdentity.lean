import Qotp.Conn.Effects
import Qotp.Conn.KeyChange
import Qotp.Framework.Run

namespace Qotp

open Framework

variable {Prv Pub : Type}

/-- One call of `Listen`: what the socket gives, the key that is generated if one is
needed, and the time. -/
structure ListenOp (Prv : Type) where
  read : ReadResult
  fresh : Except String Prv
  nowNano : Nat

/-- Who sends the datagrams: the private keys it holds, and what it has seen on the wire. -/
structure Adversary (Prv : Type) where
  knows : Prv → Prop
  wire : Bytes → Prop

/-- The key that the reply carries belongs to the adversary, or the reply is a copy. -/
def Adversary.Owns (A : Adversary Prv) (P : Primitives Prv Pub) (d : Bytes) : Prop :=
  (∃ x, A.knows x ∧ carriedEp P d = .ok (P.publicKey x)) ∨ A.wire d

/-- Sealing under an agreement takes one of its two private keys: a reply that opens
with `a` comes from a holder of `a` or of the key it carries, or is a copy. -/
def Adversary.Builds (A : Adversary Prv) (P : Primitives Prv Pub) (d : Bytes) : Prop :=
  ∀ a, OpensReply P a d → A.knows a ∨ A.Owns P d

namespace Listener

variable {P : Primitives Prv Pub} {l l' : Listener Prv Pub} {d : Bytes} {conn conn' : Conn Prv Pub}

def listenStep (P : Primitives Prv Pub) (l : Listener Prv Pub) (op : ListenOp Prv) : Option (Listener Prv Pub) :=
  (l.listen P op.read op.fresh op.nowNano).map Prod.fst

/-- What one datagram can do to a dialed connection: a reply that opens ends the
handshake, and an InitRcv that opens brings its own identity key. -/
structure Answers (P : Primitives Prv Pub) (id : Nat) (d : Bytes) (conn conn' : Conn Prv Pub) : Prop where
  prv : conn'.prvKeyEpSnd = conn.prvKeyEpSnd
  sender : conn'.isSenderOnInit = conn.isSenderOnInit
  identity : conn'.pubKeyIdRcv = conn.pubKeyIdRcv ∨
    (connIdOf d = id ∧ msgTypeOf d = .initRcv ∧ OpensReply P conn.prvKeyEpSnd d)
  done : conn.isSenderOnInit = true → conn'.isHandshakeDoneOnRcv = true →
    conn.isHandshakeDoneOnRcv = true ∨ (connIdOf d = id ∧ OpensReply P conn.prvKeyEpSnd d)

theorem answers_refl (P : Primitives Prv Pub) (id : Nat) (d : Bytes) (conn : Conn Prv Pub) :
    Answers P id d conn conn := ⟨rfl, rfl, .inl rfl, fun _ h => .inl h⟩

/-- An update alone sets no mark. -/
theorem Update.answers (h : Update P l d conn conn') : Answers P (connIdOf d) d conn conn' := by
  cases h with
  | initRcv m ht hd => exact ⟨rfl, rfl, .inr ⟨rfl, ht, .inl ⟨ht, m, hd⟩⟩, fun _ h => .inl h⟩
  | initSnd k secret ht hd hk => exact ⟨rfl, rfl, .inl rfl, fun _ h => .inl h⟩
  | initCryptoSnd m ht hd => exact ⟨rfl, rfl, .inl rfl, fun _ h => .inl h⟩
  | initCryptoRcv m ht hd => exact ⟨rfl, rfl, .inl rfl, fun _ h => .inl h⟩
  | data epoch ht => exact ⟨rfl, rfl, .inl rfl, fun _ h => .inl h⟩

/-- The mark of a dialed connection is set behind a reply. -/
theorem markHandshake_cases (conn : Conn Prv Pub) (t : CryptoMsgType) :
    markHandshake conn t = conn ∨
      (markHandshake conn t = { conn with isHandshakeDoneOnRcv := true } ∧
        (conn.isSenderOnInit = true → t = .initRcv ∨ t = .initCryptoRcv)) := by
  unfold markHandshake
  split_ifs with h1 h2 h3 h4
  · exact .inl rfl
  · exact .inr ⟨rfl, fun _ => h3⟩
  · exact .inl rfl
  · exact .inr ⟨rfl, fun h => absurd h h2⟩
  · exact .inl rfl

/-- Behind `decode` the payload can only set the mark, of the connection it is for. -/
theorem deliver_cases {dec : Decoded} {n now id : Nat} {r : Except String (Option (Nat × Nat))}
    (hget : l.connMap.get? id = some conn) (h : l.deliver dec n now = some (l', r)) :
    ∃ c conn', Conn.SameCrypto conn c ∧ l'.connMap.get? id = some conn' ∧
      (conn' = c ∨ (id = dec.connId ∧ conn' = { c with isHandshakeDoneOnRcv := true } ∧
        (conn.isSenderOnInit = true → dec.msgType = .initRcv ∨ dec.msgType = .initCryptoRcv))) := by
  obtain ⟨c₀, hc₀, h⟩ := Option.bind_eq_some_iff.mp h
  obtain ⟨res, _, h⟩ := Option.bind_eq_some_iff.mp h
  -- the time of the last read is in the measurements
  generalize hc₁ : (if now > c₀.measurements.lastReadTimeNano then _ else c₀) = c₁ at h
  have hkeys : Conn.SameCrypto c₀ c₁ := by
    rw [← hc₁]
    split_ifs
    · exact ⟨_, _, _, _, _, _, _, rfl⟩
    · exact Conn.SameCrypto.refl c₀
  by_cases hid : id = dec.connId
  · subst hid
    obtain rfl : c₀ = conn := Option.some.inj (hc₀.symm.trans hget)
    rcases res with e | ⟨p, u⟩
    · cases h
      exact ⟨c₁, c₁, hkeys, InsertionMap.get?_put_self _ _ _, .inl rfl⟩
    · obtain ⟨c₂, hdec, h⟩ := Option.bind_eq_some_iff.mp h
      cases h
      have hsame : Conn.SameCrypto c₀ c₂ := by
        obtain ⟨streams, snd, rcv, inFlight, wnd, m', rfl⟩ := Conn.decode_frame hdec
        exact hkeys.trans ⟨_, _, _, _, _, _, _, rfl⟩
      refine ⟨c₂, _, hsame, InsertionMap.get?_put_self _ _ _, ?_⟩
      obtain hm | ⟨hm, ht⟩ := markHandshake_cases c₂ dec.msgType
      · exact .inl hm
      · refine .inr ⟨rfl, hm, fun hs => ht ?_⟩
        obtain ⟨_, _, _, _, _, _, _, rfl⟩ := hsame
        exact hs
  · refine ⟨conn, conn, Conn.SameCrypto.refl conn, ?_, .inl rfl⟩
    rcases res with e | ⟨p, u⟩
    · cases h
      rw [get?_setConn, if_neg hid]
      exact hget
    · obtain ⟨c₂, hdec, h⟩ := Option.bind_eq_some_iff.mp h
      cases h
      rw [get?_setConn, if_neg hid]
      exact hget

/-- One datagram and a known connection: it is updated if the datagram is accepted, the
payload changes nothing of its keys, and the mark is set only behind an update. -/
theorem listen_known {now id rAddr : Nat} {fresh : Except String Prv} {r : Except String (Option (Nat × Nat))}
    (hget : l.connMap.get? id = some conn)
    (h : l.listen P (.datagram d rAddr) fresh now = some (l', r)) :
    ∃ c₁ c₂ conn', (c₁ = conn ∨ (id = connIdOf d ∧ Update P l d conn c₁)) ∧ Conn.SameCrypto c₁ c₂ ∧
      l'.connMap.get? id = some conn' ∧ (conn' = c₂ ∨ (id = connIdOf d ∧ Update P l d conn c₁ ∧
        conn' = { c₂ with isHandshakeDoneOnRcv := true } ∧
        (conn.isSenderOnInit = true → msgTypeOf d = .initRcv ∨ msgTypeOf d = .initCryptoRcv))) := by
  unfold listen at h
  dsimp only at h
  split_ifs at h
  · cases h
    exact ⟨conn, conn, conn, .inl rfl, Conn.SameCrypto.refl conn, hget, .inl rfl⟩
  obtain ⟨⟨l₁, res⟩, hdec, h⟩ := Option.bind_eq_some_iff.mp h
  have heff := decode_effect P hdec
  obtain ⟨c₁, hg₁, hcase⟩ := heff.conn hget
  rcases res with e | dec
  · cases h
    exact ⟨c₁, c₁, c₁, hcase, Conn.SameCrypto.refl c₁, hg₁, .inl rfl⟩
  obtain ⟨c₂, conn', hsame, hg', hmark⟩ := deliver_cases hg₁ h
  obtain ⟨hcid, hty⟩ := heff.result dec rfl
  refine ⟨c₁, c₂, conn', hcase, hsame, hg', hmark.imp_right ?_⟩
  rintro ⟨rfl, rfl, ht⟩
  -- the datagram was accepted, so it updated the connection
  rw [hcid] at hget hg₁ ⊢
  obtain ⟨_, e, he⟩ | ⟨c, hu, hl, _⟩ := heff.named conn hget
  · cases he
  rw [hl, get?_setConn, if_pos rfl] at hg₁
  cases hg₁
  refine ⟨rfl, hu, rfl, fun hs => ?_⟩
  rw [← hty]
  exact ht (hu.answers.sender.trans hs)

theorem listen_answers {now id rAddr : Nat} {fresh : Except String Prv} {r : Except String (Option (Nat × Nat))}
    (hget : l.connMap.get? id = some conn)
    (h : l.listen P (.datagram d rAddr) fresh now = some (l', r)) :
    ∃ conn', l'.connMap.get? id = some conn' ∧ Answers P id d conn conn' := by
  obtain ⟨c₁, c₂, conn', hcase, hsame, hg', hmark⟩ := listen_known hget h
  have hans : Answers P id d conn c₁ := by
    obtain rfl | ⟨rfl, hu⟩ := hcase
    · exact answers_refl P id d c₁
    · exact hu.answers
  obtain ⟨_, _, _, _, _, _, _, rfl⟩ := hsame
  refine ⟨conn', hg', ?_⟩
  obtain rfl | ⟨rfl, hu, rfl, ht⟩ := hmark
  · exact ⟨hans.prv, hans.sender, hans.identity, hans.done⟩
  · exact ⟨hans.prv, hans.sender, hans.identity, fun hs _ => .inr ⟨rfl, (hu.reply (ht hs)).1⟩⟩

/-- Without a datagram nothing happens. -/
theorem listenStep_answers {op : ListenOp Prv} {id : Nat} (hget : l.connMap.get? id = some conn)
    (h : l.listenStep P op = some l') :
    l' = l ∨ ∃ d rAddr, op.read = .datagram d rAddr ∧
      ∃ conn', l'.connMap.get? id = some conn' ∧ Answers P id d conn conn' := by
  obtain ⟨⟨l₁, r⟩, hl, rfl⟩ := Option.map_eq_some_iff.mp h
  cases hr : op.read with
  | timeout =>
    rw [hr] at hl
    cases hl
    exact .inl rfl
  | error e =>
    rw [hr] at hl
    cases hl
    exact .inl rfl
  | datagram d rAddr =>
    rw [hr] at hl
    exact .inr ⟨d, rAddr, rfl, listen_answers hget hl⟩

/-- Among the datagrams there is a reply for connection `id` that opens with `prv`. -/
def Replied (P : Primitives Prv Pub) (A : Adversary Prv) (ops : List (ListenOp Prv)) (id : Nat) (prv : Prv)
    (q : Bytes → Prop) : Prop :=
  ∃ op ∈ ops, ∃ d rAddr, op.read = .datagram d rAddr ∧ connIdOf d = id ∧ q d ∧ OpensReply P prv d ∧ A.Owns P d

theorem Replied.cons {A : Adversary Prv} {ops : List (ListenOp Prv)} {op : ListenOp Prv} {id : Nat} {prv : Prv}
    {q : Bytes → Prop} (h : Replied P A ops id prv q) : Replied P A (op :: ops) id prv q := by
  obtain ⟨o, ho, h⟩ := h
  exact ⟨o, List.mem_cons_of_mem _ ho, h⟩

/-- Over a whole sequence: the mark and a new identity key both come from a reply. -/
theorem run_answers {A : Adversary Prv} {id : Nat} {ops : List (ListenOp Prv)} {l₁ : Listener Prv Pub}
    (hget : l.connMap.get? id = some conn) (hsend : conn.isSenderOnInit = true)
    (hprv : ¬ A.knows conn.prvKeyEpSnd)
    (hadv : ∀ op ∈ ops, ∀ d rAddr, op.read = .datagram d rAddr → A.Builds P d)
    (hrun : run (listenStep P) l ops = some l₁) :
    ∃ conn₁, l₁.connMap.get? id = some conn₁ ∧
      (conn₁.isHandshakeDoneOnRcv = true → conn.isHandshakeDoneOnRcv = true ∨
        Replied P A ops id conn.prvKeyEpSnd fun _ => True) ∧
      (conn₁.pubKeyIdRcv = conn.pubKeyIdRcv ∨
        Replied P A ops id conn.prvKeyEpSnd fun d => msgTypeOf d = .initRcv) := by
  induction ops generalizing l conn with
  | nil =>
    cases hrun
    exact ⟨conn, hget, .inl, .inl rfl⟩
  | cons op ops ih =>
    obtain ⟨l', hs, hrest⟩ := (run_cons _ _ _ _ _).mp hrun
    have hadv' : ∀ o ∈ ops, ∀ d rAddr, o.read = .datagram d rAddr → A.Builds P d :=
      fun o ho => hadv o (List.mem_cons_of_mem _ ho)
    obtain rfl | ⟨d, rAddr, hr, conn', hg', hans⟩ := listenStep_answers hget hs
    · obtain ⟨conn₁, hg₁, hdone, hidk⟩ := ih hget hsend hprv hadv' hrest
      exact ⟨conn₁, hg₁, fun h => (hdone h).imp_right Replied.cons, hidk.imp_right Replied.cons⟩
    · have hown : OpensReply P conn.prvKeyEpSnd d → A.Owns P d := fun ho =>
        (hadv op List.mem_cons_self d rAddr hr conn.prvKeyEpSnd ho).resolve_left hprv
      obtain ⟨conn₁, hg₁, hdone, hidk⟩ :=
        ih hg' (hans.sender.trans hsend) (hans.prv ▸ hprv) hadv' hrest
      rw [hans.prv] at hdone hidk
      refine ⟨conn₁, hg₁, fun h => ?_, ?_⟩
      · obtain h | h := hdone h
        · obtain h | ⟨hid, ho⟩ := hans.done hsend h
          · exact .inl h
          · exact .inr ⟨op, List.mem_cons_self, d, rAddr, hr, hid, trivial, ho, hown ho⟩
        · exact .inr h.cons
      · obtain h | h := hidk
        · obtain hsame | ⟨hid, ht, ho⟩ := hans.identity
          · exact .inl (h.trans hsame)
          · exact .inr ⟨op, List.mem_cons_self, d, rAddr, hr, hid, ht, ho, hown ho⟩
        · exact .inr h.cons

/-- A dialed connection as it enters the listener. -/
theorem dialWithCrypto_conn {l₀ : Listener Prv Pub} {addr : Nat} {key : Option Pub} {fresh : Except String Prv}
    (h : l.dialWithCrypto P addr key fresh = some (l₀, .ok conn)) :
    l₀.connMap.get? conn.connId = some conn ∧ conn.isSenderOnInit = true ∧ conn.pubKeyIdRcv = key ∧
      conn.isHandshakeDoneOnRcv = false := by
  unfold dialWithCrypto dialWith at h
  cases fresh with
  | error e => cases h
  | ok prv =>
    obtain ⟨connId, _, h⟩ := Option.bind_eq_some_iff.mp h
    obtain ⟨_, e, he⟩ | ⟨_, _, rfl, hc⟩ := newConn_cases P h
    · cases he
    · cases hc
      exact ⟨InsertionMap.get?_put_self _ _ _, rfl, rfl, rfl⟩

/-- For a connection dialed with a pinned identity, against datagrams of an adversary
that does not hold the ephemeral key: the handshake ends only behind a reply that
opens under the agreement of that key with the one the reply carries, which the
adversary owns or which was on the wire; and the pinned identity stays unless such
a reply is an InitRcv. -/
theorem dialed_identity {Prv Pub : Type} (P : Primitives Prv Pub) (A : Adversary Prv) (l l₀ l₁ : Listener Prv Pub)
    (addr : Nat) (key : Option Pub) (fresh : Except String Prv) (conn : Conn Prv Pub)
    (hdial : l.dialWithCrypto P addr key fresh = some (l₀, .ok conn)) (hprv : ¬ A.knows conn.prvKeyEpSnd)
    (ops : List (ListenOp Prv)) (hadv : ∀ op ∈ ops, ∀ d rAddr, op.read = .datagram d rAddr → A.Builds P d)
    (hrun : run (listenStep P) l₀ ops = some l₁) :
    ∃ conn₁, l₁.connMap.get? conn.connId = some conn₁ ∧
      (conn₁.isHandshakeDoneOnRcv = true → Replied P A ops conn.connId conn.prvKeyEpSnd fun _ => True) ∧
      (conn₁.pubKeyIdRcv = key ∨
        Replied P A ops conn.connId conn.prvKeyEpSnd fun d => msgTypeOf d = .initRcv) := by
  obtain ⟨hget, hsend, hkey, hopen⟩ := dialWithCrypto_conn hdial
  obtain ⟨conn₁, hg, hdone, hid⟩ := run_answers hget hsend hprv hadv hrun
  refine ⟨conn₁, hg, fun h => (hdone h).resolve_left ?_, ?_⟩
  · rw [hopen]
    exact nofun
  · rw [← hkey]
    exact hid

/-- A listener that dials the identity 7 with the ephemeral key 3. -/
def dialer : Listener UInt8 UInt8 := { prvKeyId := 11, mtu := 1400 }

def dialedId : Nat := getLE (List.replicate 8 3)

def dialed : Option (Listener UInt8 UInt8 × Except String (Conn UInt8 UInt8)) :=
  dialer.dialWithCrypto plain 0 (some 7) (.ok 3)

/-- An outsider holds key 9 only, and has nothing to replay. -/
def outsider : Adversary UInt8 := ⟨fun x => x = 9, fun _ => False⟩

/-- The replies the outsider can seal for the dialed connection. -/
def outsiderReply (withIdentity : Bool) : Bytes :=
  let payload := (encodePayload {} (some [])).1
  let reply := if withIdentity then encryptInitRcv plain dialedId 13 (some 3) 9 0 payload
    else encryptInitCryptoRcv plain dialedId (some 3) 9 0 payload
  (reply.bind Except.toOption).getD []

theorem outsider_builds (withIdentity : Bool) : outsider.Builds plain (outsiderReply withIdentity) := by
  refine fun a _ => .inr (.inl ⟨9, rfl, ?_⟩)
  cases withIdentity <;> rfl

theorem outsiderReply_traced :
    ∃ l₀ conn l₁ conn₁, dialed = some (l₀, .ok conn) ∧
      run (listenStep plain) l₀ [⟨.datagram (outsiderReply false) 0, .ok 5, 1⟩] = some l₁ ∧
      l₁.connMap.get? conn.connId = some conn₁ ∧
      (conn₁.isHandshakeDoneOnRcv = true →
        Replied plain outsider [⟨.datagram (outsiderReply false) 0, .ok 5, 1⟩] conn.connId conn.prvKeyEpSnd
          fun _ => True) := by
  have hdial : ∃ l₀ conn, dialed = some (l₀, .ok conn) ∧ conn.prvKeyEpSnd = 3 := ⟨_, _, rfl, rfl⟩
  obtain ⟨l₀, conn, hdial, h3⟩ := hdial
  have hrun : (dialed.bind fun r =>
      run (listenStep plain) r.1 [⟨.datagram (outsiderReply false) 0, .ok 5, 1⟩]).isSome := by decide +kernel
  rw [hdial] at hrun
  obtain ⟨l₁, hrun⟩ := Option.isSome_iff_exists.mp hrun
  have hprv : ¬ outsider.knows conn.prvKeyEpSnd := by
    rw [h3]
    exact (by decide : (3 : UInt8) ≠ 9)
  have hadv : ∀ op ∈ [(⟨.datagram (outsiderReply false) 0, .ok 5, 1⟩ : ListenOp UInt8)], ∀ d rAddr,
      op.read = .datagram d rAddr → outsider.Builds plain d := by
    intro op ho d rAddr hr
    obtain rfl := List.mem_singleton.mp ho
    cases hr
    exact outsider_builds false
  obtain ⟨conn₁, hg, hdone, _⟩ := dialed_identity plain outsider dialer l₀ l₁ 0 (some 7) (.ok 3) conn hdial hprv _
    hadv hrun
  exact ⟨l₀, conn, l₁, conn₁, hdial, hrun, hg, hdone⟩

/-- The outsider completes the handshake of a dial that pinned another identity; with
an InitRcv it also puts its own identity in place. -/
theorem outsider_answers_dial :
    ¬ outsider.knows 3 ∧ ¬ outsider.knows 7 ∧ outsider.Builds plain (outsiderReply false) ∧
    outsider.Builds plain (outsiderReply true) ∧
    ∀ withIdentity, (dialed.bind fun r =>
      (run (listenStep plain) r.1 [⟨.datagram (outsiderReply withIdentity) 0, .ok 5, 1⟩]).map fun l =>
        (l.connMap.get? dialedId).map fun c => (c.isHandshakeDoneOnRcv, c.pubKeyIdRcv)) =
      some (some (true, some (if withIdentity then 13 else 7))) := by
  refine ⟨(by decide : (3 : UInt8) ≠ 9), (by decide : (7 : UInt8) ≠ 9), outsider_builds false,
    outsider_builds true, ?_⟩
  decide +kernel

end Listener

end Qotp
