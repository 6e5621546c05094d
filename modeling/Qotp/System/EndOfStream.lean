import Qotp.Buffer.ReceiveEnd
import Qotp.Conn.InFlight
import Qotp.System.Link

namespace Qotp

open Framework

variable {Prv Pub : Type}

namespace Link

variable {P : Primitives Prv Pub} {lp ls : ListenerCfg Prv} {s t : Link Prv Pub} {k c : Nat}

theorem step_read (s : Link Prv Pub) (k : Nat) : s.step P lp ls (.self (.read k)) = some { s with
    self := { s.self with
      conn := (s.self.readOf k).1
      delivered := Function.update s.self.delivered k (s.self.delivered k ++ (s.self.readOf k).2.1.getD []) } } := rfl

/-- Where everything was read, a read reports the end only to a mark at 0. -/
theorem Inv.read_done (h : Inv s) (hc : (s.self.conn.rcv.stream k).closeAtOffset = some c)
    (hall : s.self.delivered k = s.peer.accepted k) :
    (s.self.readOf k).2.2 = some .eof ↔ c = 0 ∧ s.self.conn.closedAtNano k = 0 := by
  have hnext : (s.self.conn.rcv.stream k).nextInOrderOffsetToWaitFor = (s.peer.accepted k).length := by
    rw [← h.rcv.length k, hall]
  have hoff : (s.self.conn.rcv.removeOldestInOrder k).2.1 = 0 := by
    rw [ReceiveBuffer.removeOldestInOrder_packet]
    obtain ⟨v, hm, _⟩ | ⟨hr, _⟩ := (s.self.conn.rcv.stream k).removeOldestInOrder_cases
    · -- nothing starts at the end
      have := (h.rcv.pieces k).start _ (SortedAssoc.min?_spec hm).1
      dsimp only at this
      omega
    · rw [hr]
  obtain ⟨hne, hr⟩ | ⟨h0, _, _, ⟨c', hc', hle, herr, _⟩ | ⟨hlt, herr, _⟩⟩ := Endpoint.readOf_cases h.keyed k
  · rw [hr]
    exact ⟨nofun, fun hz => absurd hz.2 hne⟩
  · rw [hc] at hc'
    cases hc'
    rw [hoff] at hle
    exact ⟨fun _ => ⟨Nat.le_zero.mp hle, h0⟩, fun _ => herr⟩
  · have := hlt c hc
    rw [herr]
    exact ⟨nofun, fun hz => by omega⟩

/-- A read that completes the delivery reports the end if its data starts at or behind
the mark; otherwise the next one does not either. -/
theorem Inv.read_completes (h : Inv s) (hc : (s.self.conn.rcv.stream k).closeAtOffset = some c)
    (ht : s.step P lp ls (.self (.read k)) = some t) (hit : Inv t)
    (hne : s.self.delivered k ≠ s.peer.accepted k) (hall : t.self.delivered k = s.peer.accepted k) :
    (s.self.readOf k).2.2 = some .eof ∨ (t.self.readOf k).2.2 = some .eof ↔
      c ≤ (s.self.delivered k).length := by
  have hnext := h.rcv.length k
  rw [step_read] at ht
  cases ht
  have hmark := ((Endpoint.readOf_rcv h.keyed k).2 k).trans hc
  have hlast := hit.read_done hmark hall
  simp only [Function.update_self] at hall
  obtain ⟨_, hr⟩ | ⟨_, _, hdata, hcase⟩ := Endpoint.readOf_cases h.keyed k
  · rw [hr] at hall
    exact absurd (by simpa using hall) hne
  have hoff : (s.self.conn.rcv.removeOldestInOrder k).2.1 =
      (s.self.conn.rcv.stream k).nextInOrderOffsetToWaitFor := by
    rw [ReceiveBuffer.removeOldestInOrder_packet] at hdata ⊢
    obtain ⟨v, _, hr⟩ | ⟨hr, _⟩ := (s.self.conn.rcv.stream k).removeOldestInOrder_cases
    · rw [hr]
    · -- without data the delivery was complete before
      rw [hr] at hdata
      rw [hdata] at hall
      exact absurd (by simpa using hall) hne
  rw [hoff, ← hnext] at hcase
  obtain ⟨c', hc', hle, herr, _⟩ | ⟨hlt, herr, _⟩ := hcase
  · rw [hc] at hc'
    cases hc'
    exact ⟨fun _ => hle, fun _ => .inl herr⟩
  · have := hlt c hc
    rw [herr, hlast]
    exact ⟨fun hor => by simp at hor; omega, fun hle => by omega⟩

/-- The end of a closed stream is reported exactly where the first mark allows it: to the
read that completes the delivery if its data starts at or behind the mark, and to a
read after that only if the mark is at 0. -/
theorem eof_reported_iff {Prv Pub : Type} (P : Primitives Prv Pub) (lp ls : ListenerCfg Prv)
    (hmtu : 119 ≤ lp.mtu ∧ lp.mtu ≤ 65535) (cp cs : Conn Prv Pub) (hp : cp.Fresh) (hs : cs.Fresh)
    (ops : List (LinkOp Prv Pub)) (s : Link Prv Pub)
    (hops : Along (step P lp ls) Fits ⟨{ conn := cp }, { conn := cs }⟩ ops)
    (hrun : run (step P lp ls) ⟨{ conn := cp }, { conn := cs }⟩ ops = some s) (k c : Nat)
    (hc : (s.self.conn.rcv.stream k).closeAtOffset = some c) :
    s.PeerClosed k ∧
    (∀ t, s.step P lp ls (.self (.read k)) = some t → s.self.delivered k ≠ s.peer.accepted k →
      t.self.delivered k = s.peer.accepted k →
      ((s.self.readOf k).2.2 = some .eof ∨ (t.self.readOf k).2.2 = some .eof ↔
        c ≤ (s.self.delivered k).length)) ∧
    (s.self.delivered k = s.peer.accepted k →
      ((s.self.readOf k).2.2 = some .eof ↔ c = 0 ∧ s.self.conn.closedAtNano k = 0)) := by
  have hi := run_inv_along (step_inv hmtu) (inv_fresh hp hs) hops hrun
  refine ⟨hi.closed k c hc, fun t ht hne hall => ?_, hi.read_done hc⟩
  have hit := step_inv hmtu s (.self (.read k)) t hi trivial ht
  exact hi.read_completes hc ht hit hne hall

/-- Two ends in the data phase, with plain primitives and the default MTU. -/
def plainLink : Link UInt8 UInt8 := ⟨{ conn := Ends.plainConn true }, { conn := Ends.plainConn false }⟩

abbrev plainStep : Link UInt8 UInt8 → LinkOp UInt8 UInt8 → Option (Link UInt8 UInt8) :=
  step plain (Ends.plainCfg true) (Ends.plainCfg false)

/-- Three bytes are written and closed before they are sent: CLOSE travels with them. -/
def closedAtOnce : List (LinkOp UInt8 UInt8) :=
  [.peer (.write 0 [1, 2, 3] (.ok ())), .peer (.close 0), .peer (.flush 0 1 (.ok ())), .arrive 0 2]

theorem closedAtOnce_reported :
    ∃ s t, run plainStep plainLink closedAtOnce = some s ∧ plainStep s (.self (.read 0)) = some t ∧
      (s.self.conn.rcv.stream 0).closeAtOffset = some 0 ∧ s.self.delivered 0 ≠ s.peer.accepted 0 ∧
      t.self.delivered 0 = s.peer.accepted 0 ∧
      ((s.self.readOf 0).2.2 = some .eof ∨ (t.self.readOf 0).2.2 = some .eof) := by
  have hops : Along plainStep Fits plainLink closedAtOnce :=
    along_cons trivial rfl (along_cons trivial rfl (along_cons ⟨by decide, by decide⟩ rfl
      (along_cons trivial rfl trivial)))
  have h := eof_reported_iff plain (Ends.plainCfg true) (Ends.plainCfg false) (by decide) _ _
    (Endpoint.plainConn_fresh true) (Endpoint.plainConn_fresh false) closedAtOnce _ hops rfl 0 0 rfl
  exact ⟨_, _, rfl, rfl, rfl, by decide, rfl, (h.2.1 _ rfl (by decide) rfl).mpr (Nat.zero_le _)⟩

/-- Three bytes are sent and read; the peer closes the stream only then, and sends an
empty packet with CLOSE at offset 3. -/
def closedLater : List (LinkOp UInt8 UInt8) :=
  [.peer (.write 0 [1, 2, 3] (.ok ())), .peer (.flush 0 1 (.ok ())), .arrive 0 2, .self (.read 0),
    .peer (.close 0), .peer (.flush 0 100000000 (.ok ())), .arrive 1 100000001]

/-- With everything read and CLOSE processed, the next read and the one after it return
neither data nor an error. -/
theorem closedLater_unreported :
    ((run plainStep plainLink closedLater).map fun s =>
      (s.peer.accepted 0, s.self.delivered 0, (s.self.conn.rcv.stream 0).closeAtOffset)) =
      some ([1, 2, 3], [1, 2, 3], some 3) ∧
    ((run plainStep plainLink closedLater).map fun s => (s.self.readOf 0).2) = some (none, none) ∧
    ((run plainStep plainLink (closedLater ++ [.self (.read 0)])).map fun s => (s.self.readOf 0).2) =
      some (none, none) := by
  decide +kernel

/-- What has to hold of a packet of stream `k` when it arrives: an ack that marks the
stream closed finds everything read, and the data and the mark fit. -/
def PacketFits (s : Link Prv Pub) (k : Nat) (p : PayloadHeader) (u : Option Bytes) : Prop :=
  (s.self.conn.snd.ackCloses k p.ack = true →
    (s.self.conn.rcv.stream k).nextInOrderOffsetToWaitFor = (s.peer.accepted k).length) ∧
  s.self.conn.rcv.EndFits p u (s.peer.accepted k).length

instance (s : Link Prv Pub) (k : Nat) (p : PayloadHeader) (u : Option Bytes) : Decidable (s.PacketFits k p u) :=
  inferInstanceAs (Decidable (_ ∧ _))

/-- The local side leaves closing stream `k` to the peer, and every packet of it fits. -/
def LeavesClosing (k : Nat) (s : Link Prv Pub) : LinkOp Prv Pub → Prop
  | .self (.close j) => j ≠ k
  | .arrive i _ => ∀ q, s.received i = some q → q.1.streamID = k → s.PacketFits k q.1 q.2
  | op => s.Fits op

instance (k : Nat) (s : Link Prv Pub) : ∀ op, Decidable (LeavesClosing k s op)
  | .self (.close j) => inferInstanceAs (Decidable (j ≠ k))
  | .arrive i _ => inferInstanceAs (Decidable (∀ q ∈ s.received i, q.1.streamID = k → s.PacketFits k q.1 q.2))
  | .peer op => inferInstanceAs (Decidable (s.Fits (.peer op)))
  | .self (.write _ _ _) | .self (.read _) | .self (.ping _) | .self (.flush _ _ _) | .self (.decode _ _ _ _)
  | .self (.cleanup _) | .self (.handshake _) => isTrue trivial

/-- Stream `k` ends for its reader where it ends for its writer. -/
structure EndInv (k : Nat) (s : Link Prv Pub) : Prop where
  base : Inv s
  snd : (s.self.conn.snd.stream k).closeAtOffset.isSome = true → s.PeerClosed k
  mark : ∀ c, (s.self.conn.rcv.stream k).closeAtOffset = some c →
    (s.self.conn.rcv.stream k).EndsAt c (s.peer.accepted k).length
  done : s.self.conn.closedAtNano k ≠ 0 →
    (s.self.conn.rcv.stream k).nextInOrderOffsetToWaitFor = (s.peer.accepted k).length ∧ s.PeerClosed k

theorem endInv_fresh {cp cs : Conn Prv Pub} (hp : cp.Fresh) (hs : cs.Fresh) (k : Nat) :
    EndInv k ⟨{ conn := cp }, { conn := cs }⟩ := by
  refine ⟨inv_fresh hp hs, fun h => ?_, fun c hc => ?_, fun h => ?_⟩
  · change (cs.snd.stream k).closeAtOffset.isSome = true at h
    rw [hs.snd] at h
    cases h
  · change (cs.rcv.stream k).closeAtOffset = some c at hc
    rw [hs.rcv] at hc
    cases hc
  · change cs.closedAtNano k ≠ 0 at h
    unfold Conn.closedAtNano at h
    rw [hs.streams] at h
    exact absurd rfl h

theorem LeavesClosing.fits {op : LinkOp Prv Pub} (h : LeavesClosing k s op) : s.Fits op := by
  rcases op with op | op | ⟨i, now⟩
  · exact h
  · trivial
  · trivial

theorem EndInv.peer (h : EndInv k s) {op : ConnOp Prv Pub} {e : Endpoint Prv Pub}
    (hs : s.peer.step P lp op = some e) (hi : Inv { s with peer := e }) : EndInv k { s with peer := e } := by
  refine ⟨hi, fun hc => (h.snd hc).peer h.base hs, fun c hc => ?_, fun hne => ?_⟩
  · have hsame := (h.base.closed k c hc).accepted h.base hs hi.peer
    dsimp only at hc ⊢
    rw [hsame]
    exact h.mark c hc
  · obtain ⟨hnext, hcl⟩ := h.done hne
    refine ⟨?_, hcl.peer h.base hs⟩
    dsimp only
    rw [hcl.accepted h.base hs hi.peer]
    exact hnext

/-- The end is reported to the read that reaches the end. -/
theorem EndInv.eof_end (h : EndInv k s) (hc : (s.self.conn.rcv.stream k).closeAtOffset = some c)
    (hle : c ≤ (s.self.conn.rcv.removeOldestInOrder k).2.1) :
    ((s.self.conn.rcv.removeOldestInOrder k).1.stream k).nextInOrderOffsetToWaitFor =
      (s.peer.accepted k).length := by
  rw [ReceiveBuffer.removeOldestInOrder_packet] at hle
  rw [ReceiveBuffer.removeOldestInOrder_stream, if_pos rfl]
  exact (h.mark c hc).read_end hle

theorem EndInv.read (h : EndInv k s) (j : Nat)
    (hsnd : ((s.self.readOf j).1.snd.stream k).closeAtOffset = (s.self.conn.snd.stream k).closeAtOffset)
    {d : Nat → Bytes} (hi : Inv { s with self := { s.self with conn := (s.self.readOf j).1, delivered := d } }) :
    EndInv k { s with self := { s.self with conn := (s.self.readOf j).1, delivered := d } } := by
  have hmarks := (Endpoint.readOf_rcv h.base.keyed j).2 k
  refine ⟨hi, fun hc => h.snd (by rw [← hsnd]; exact hc), fun c hc => ?_, fun hne => ?_⟩
  · dsimp only at hc ⊢
    rw [hmarks] at hc
    obtain ⟨hrcv, _⟩ | ⟨hrcv, _⟩ := (Endpoint.readOf_rcv h.base.keyed j).1
    · rw [hrcv]
      exact h.mark c hc
    · rw [hrcv, ReceiveBuffer.removeOldestInOrder_stream]
      split_ifs with hj
      · subst hj
        exact (h.mark c hc).remove
      · exact h.mark c hc
  · -- the stream was closed before, or by this read
    dsimp only at hne ⊢
    obtain ⟨_, hr⟩ | ⟨h0, hrcv, _, hcase⟩ := Endpoint.readOf_cases h.base.keyed j
    · rw [hr] at hne ⊢
      rw [Conn.stream_frame]
      exact h.done (Conn.closedAtNano_stream _ j k ▸ hne)
    have hother : k ≠ j → s.self.conn.closedAtNano k ≠ 0 →
        ((s.self.readOf j).1.rcv.stream k).nextInOrderOffsetToWaitFor = (s.peer.accepted k).length ∧
          s.PeerClosed k := by
      intro hk hold
      rw [hrcv, ReceiveBuffer.removeOldestInOrder_stream, if_neg hk]
      exact h.done hold
    obtain ⟨c, hc, hle, _, hput⟩ | ⟨_, _, hsame⟩ := hcase
    · rw [Conn.closedAtNano_put hput, Conn.closedAtNano_stream] at hne
      split_ifs at hne with hk
      · subst hk
        rw [hrcv]
        exact ⟨h.eof_end hc hle, h.base.closed k c hc⟩
      · exact hother hk hne
    · rw [Conn.closedAtNano_congr hsame, Conn.closedAtNano_stream] at hne
      exact hother (fun hk => hne (hk ▸ h0)) hne

/-- The mark behind a packet of stream `k`. -/
theorem EndInv.decode_mark (h : EndInv k s) {p : PayloadHeader} {u : Option Bytes} (hpk : p.streamID = k)
    (hg : Genuine s.peer.accepted s.peer.conn.snd p.streamID (u.getD []) p.streamOffset p.isClose)
    (hfit : s.self.conn.rcv.EndFits p u (s.peer.accepted k).length) {s₁ : RcvBuffer} {now : Nat}
    (hs₁ : (¬ s.self.conn.rcv.Stores u ∧ s₁ = s.self.conn.rcv.stream p.streamID) ∨
      (s.self.conn.rcv.Stores u ∧ ∃ delta st,
        (s.self.conn.rcv.stream p.streamID).insert p.streamOffset now (u.getD []) = some (s₁, delta, st)))
    (hc : (if p.isClose then s₁.close p.streamOffset else s₁).closeAtOffset = some c) :
    s₁.EndsAt c (s.peer.accepted k).length := by
  subst hpk
  have hpieces := h.base.rcv.pieces p.streamID
  have hkeep : s₁.closeAtOffset = (s.self.conn.rcv.stream p.streamID).closeAtOffset := by
    obtain ⟨_, rfl⟩ | ⟨_, delta, st, hins⟩ := hs₁
    · rfl
    · rw [RcvBuffer.insert_frame hins]
  cases hold : (s.self.conn.rcv.stream p.streamID).closeAtOffset with
  | some c₀ =>
    -- the first mark stays
    have hc₀ : c₀ = c := by
      rw [RcvBuffer.close_eq, hkeep, hold] at hc
      split_ifs at hc
      · exact Option.some.inj hc
      · rw [hkeep, hold] at hc
        exact Option.some.inj hc
    subst hc₀
    have hmark := h.mark c₀ hold
    obtain ⟨_, rfl⟩ | ⟨hst, delta, st, hins⟩ := hs₁
    · exact hmark
    · exact hmark.insert hpieces hst.1 (hg.data hst.1) (hfit.marked hold hst) hins
  | none =>
    by_cases hcl : p.isClose = true
    · rw [if_pos hcl, RcvBuffer.close_eq, hkeep, hold] at hc
      obtain rfl : p.streamOffset = c := Option.some.inj hc
      have hfirst := hfit.first hold hcl
      obtain ⟨hst, rfl⟩ | ⟨hst, delta, st, hins⟩ := hs₁
      · rwa [if_neg hst] at hfirst
      · rw [if_pos hst] at hfirst
        obtain ⟨c', hc', hend⟩ := hg.close hcl
        have hlen := h.base.peer.snd.closed p.streamID c' hc'
        exact RcvBuffer.endsAt_close hpieces (h.base.rcv.next_le _) hst.1 ((hend hst.1).trans hlen) hfirst hins
    · rw [if_neg hcl, hkeep, hold] at hc
      cases hc

theorem EndInv.decode (h : EndInv k s) {i rawLen now : Nat} {p : PayloadHeader} {u : Option Bytes}
    {c : Conn Prv Pub} (hr : s.received i = some (p, u))
    (hfit : p.streamID = k → s.PacketFits k p u) (hd : s.self.conn.decode p u rawLen now = some c) :
    EndInv k { s with self := { s.self with conn := c } } := by
  have hg := h.base.received_genuine hr
  have hkeyed := h.base.keyed
  obtain ⟨s₁, hstr, _, hs₁⟩ := Conn.decode_rcv hkeyed hd
  refine ⟨inv_decode h.base hr hd, fun hsome => ?_, fun c' hc => ?_, fun hne => ?_⟩
  · dsimp only at hsome
    obtain hsame | ⟨_, hcl, rfl⟩ := Conn.decode_marks hkeyed hd k
    · exact h.snd (hsame ▸ hsome)
    · obtain ⟨c', hc', _⟩ := hg.close hcl
      exact Option.isSome_iff_exists.mpr ⟨c', hc'⟩
  · dsimp only at hc ⊢
    rw [hstr k] at hc ⊢
    by_cases hk : k = p.streamID
    · rw [if_pos hk] at hc ⊢
      have hend := h.decode_mark hk.symm hg (hfit hk.symm).2 hs₁ hc
      split_ifs
      · exact hend.congr (by rw [RcvBuffer.close_eq])
      · exact hend
    · rw [if_neg hk] at hc ⊢
      exact h.mark c' hc
  · dsimp only at hne ⊢
    rw [Conn.decode_next hkeyed hd k]
    obtain hsame | ⟨hpk, hack⟩ := Conn.decode_closedAtNano hkeyed hd k
    · exact h.done (hsame ▸ hne)
    · obtain ⟨c', hc'⟩ := SendBuffer.ackCloses_closed hack
      exact ⟨(hfit hpk).1 hack, h.snd (Option.isSome_iff_exists.mpr ⟨c', hc'⟩)⟩

theorem endInv_step (hmtu : 119 ≤ lp.mtu ∧ lp.mtu ≤ 65535) (k : Nat) (s : Link Prv Pub) (op : LinkOp Prv Pub)
    (t : Link Prv Pub) (h : EndInv k s) (hleave : LeavesClosing k s op) (hs : s.step P lp ls op = some t) :
    EndInv k t := by
  have hi := step_inv hmtu s op t h.base hleave.fits hs
  obtain ⟨op', e, rfl, he, rfl⟩ | ⟨op', e, rfl, hd, he, rfl⟩ | ⟨i, now, rfl, rfl | ⟨p, u, rawLen, c, hr, hc, rfl⟩⟩ :=
    step_cases hs
  · exact h.peer he hi
  · have hsnd : (e.conn.snd.stream k).closeAtOffset = (s.self.conn.snd.stream k).closeAtOffset := by
      obtain hsame | ⟨_, rfl | ⟨p, u, rawLen, now, rfl, _⟩⟩ := Endpoint.step_marks h.base.keyed he k
      · exact hsame
      · exact absurd rfl hleave
      · exact absurd rfl (hd p u rawLen now)
    by_cases hr : ∃ j, op' = .read j
    · obtain ⟨j, rfl⟩ := hr
      cases he
      exact h.read j hsnd hi
    · obtain ⟨hstr, _, hcl⟩ := Endpoint.step_rcv he (fun j hj => hr ⟨j, hj⟩) hd
      refine ⟨hi, fun hc => h.snd (hsnd ▸ hc), fun c hc => ?_, fun hne => ?_⟩
      · dsimp only at hc ⊢
        rw [hstr k] at hc ⊢
        exact h.mark c hc
      · dsimp only at hne ⊢
        obtain hcl | hcl := hcl k
        · rw [hstr k]
          exact h.done (hcl ▸ hne)
        · exact absurd hcl hne
  · exact h
  · exact h.decode hr (hleave (p, u) hr) hc

/-- While every packet of the stream fits, its reader is told of the end only once it has
all the bytes of the closed stream, and a stream that is marked closed holds none back. -/
theorem eof_only_at_end {Prv Pub : Type} (P : Primitives Prv Pub) (lp ls : ListenerCfg Prv)
    (hmtu : 119 ≤ lp.mtu ∧ lp.mtu ≤ 65535) (cp cs : Conn Prv Pub) (hp : cp.Fresh) (hs : cs.Fresh) (k : Nat)
    (ops : List (LinkOp Prv Pub)) (s : Link Prv Pub)
    (hops : Along (step P lp ls) (LeavesClosing k) ⟨{ conn := cp }, { conn := cs }⟩ ops)
    (hrun : run (step P lp ls) ⟨{ conn := cp }, { conn := cs }⟩ ops = some s) :
    ((s.self.readOf k).2.2 = some .eof ∨ (s.self.readOf k).2.2 = some .unexpectedEof →
      s.PeerClosed k ∧ s.self.delivered k ++ (s.self.readOf k).2.1.getD [] = s.peer.accepted k) ∧
    (s.self.conn.closedAtNano k ≠ 0 → s.self.delivered k = s.peer.accepted k) := by
  have h := run_inv_along (endInv_step hmtu k) (endInv_fresh hp hs k) hops hrun
  have hdone : s.self.conn.closedAtNano k ≠ 0 → s.self.delivered k = s.peer.accepted k :=
    fun hne => h.base.rcv.eq_of_next (h.done hne).1
  refine ⟨fun herr => ?_, hdone⟩
  obtain ⟨hne, hr⟩ | ⟨_, _, hdata, ⟨c, hc, hle, _⟩ | ⟨_, hnone, _⟩⟩ := Endpoint.readOf_cases h.base.keyed k
  · rw [hr]
    exact ⟨(h.done hne).2, by simpa using hdone hne⟩
  · have hall := (h.base.rcv.remove k).eq_of_next (h.eof_end hc hle)
    rw [Function.update_self, ← hdata] at hall
    exact ⟨h.base.closed k c hc, hall⟩
  · rw [hnone] at herr
    simp at herr

/-- The packet with CLOSE overtakes the one before it. -/
def closeOvertakes : List (LinkOp UInt8 UInt8) :=
  [.peer (.write 0 [1, 2] (.ok ())), .peer (.flush 0 1 (.ok ())), .peer (.write 0 [3] (.ok ())), .peer (.close 0),
    .peer (.flush 0 100000000 (.ok ())), .arrive 1 100000001, .arrive 0 100000002, .self (.read 0)]

theorem closeOvertakes_ends :
    ∃ s, run plainStep plainLink closeOvertakes = some s ∧ (s.self.readOf 0).2 = (some [3], some .eof) ∧
      s.PeerClosed 0 ∧ s.self.delivered 0 ++ (s.self.readOf 0).2.1.getD [] = s.peer.accepted 0 := by
  have hread : (run plainStep plainLink closeOvertakes).map (fun s => (s.self.readOf 0).2) =
      some (some [3], some .eof) := by decide +kernel
  obtain ⟨s, hs, hr⟩ := Option.map_eq_some_iff.mp hread
  have h := eof_only_at_end plain (Ends.plainCfg true) (Ends.plainCfg false) (by decide) _ _
    (Endpoint.plainConn_fresh true) (Endpoint.plainConn_fresh false) 0 closeOvertakes s (by decide +kernel) hs
  exact ⟨s, hs, hr, h.1 (.inl (congrArg Prod.snd hr))⟩

/-- The peer acknowledges a ping on the packet that carries its three bytes and CLOSE,
and the network delivers that packet twice. -/
def repeatedAck : List (LinkOp UInt8 UInt8) :=
  [.self (.ping 0), .self (.flush 0 1 (.ok ())), .peer (.decode {} (some []) 39 2),
    .peer (.write 0 [1, 2, 3] (.ok ())), .peer (.close 0), .peer (.flush 0 3 (.ok ())), .arrive 0 4, .arrive 0 5]

/-- The second copy marks the stream closed: the three stored bytes cannot be read. -/
theorem repeatedAck_hides :
    ((run plainStep plainLink repeatedAck).map fun s =>
      (s.peer.accepted 0, s.self.delivered 0,
        (s.self.conn.rcv.stream 0).segments.entries.map fun e => (e.1, e.2.data))) =
      some ([1, 2, 3], [], [(0, [1, 2, 3])]) ∧
    ((run plainStep plainLink repeatedAck).map fun s => (s.self.readOf 0).2) =
      some (none, some .unexpectedEof) := by
  decide +kernel

end Link

end Qotp
