import Replicate.Peer.Wire
import Replicate.Lib.ByteReader
import Replicate.LTX.FileInfo

/-
  Replication to a standby.

  The owner of a market reads an LTX file into a buffer from
  a pool, sends it as one WAL frame and waits for the
  acknowledgement of the standby, which hands the file to
  its sink first. The transport delivers a request to the
  handler of the standby and its response to the caller, or
  the call fails.

  The frame and its acknowledgement have room for the low
  half of a TXID only. A standby that is sent a greater one
  applies the file under another TXID, and says so in an
  acknowledgement that the owner accepts.

  Main declarations:
    * `readPooled_eq`
    * `writeLTXFile_ok`
    * `peer_ack_exact_iff`
    * `snapshot_exchange_exact`
-/

-- Pooled Reads

namespace Replicate

open ByteReader

variable {B E : Type}

/- Larger buffers do not come from the pool. -/
def ltxPoolCap : Nat := 64 * 1024

/- A slice with its capacity. -/
structure Buffer (B : Type) where
  data : List B
  cap : Nat
  fits : data.length ≤ cap

namespace Buffer

/- The unused tail. -/
def room (b : Buffer B) : Nat :=
  b.cap - b.data.length

/- A buffer without any capacity gets some. -/
def allocated (b : Buffer B) : Buffer B :=
  if h : b.cap = 0 then ⟨b.data, 4096, Nat.le_trans b.fits (h ▸ Nat.zero_le _)⟩ else b

/- A full buffer grows, or is too large for the pool. -/
def prepare (b : Buffer B) : Option (Buffer B) :=
  let a := b.allocated
  if a.data.length = a.cap then
    if ltxPoolCap ≤ a.cap then none
    else some ⟨a.data, a.cap * 2, Nat.le_trans a.fits (Nat.le_mul_of_pos_right _ two_pos)⟩
  else some a

theorem allocated_spec (b : Buffer B) : b.allocated.data = b.data ∧ 0 < b.allocated.cap := by
  unfold allocated
  split
  · exact ⟨rfl, Nat.succ_pos _⟩
  · exact ⟨rfl, by omega⟩

theorem prepare_spec {b a : Buffer B} (hPrepare : b.prepare = some a) :
    a.data = b.data ∧ 0 < a.room := by
  have hSpec := b.allocated_spec
  unfold prepare at hPrepare
  dsimp only at hPrepare
  split at hPrepare
  · rename_i hFull
    split at hPrepare
    · cases hPrepare
    cases hPrepare
    refine ⟨hSpec.1, ?_⟩
    unfold room
    dsimp only
    omega
  · rename_i hRoom
    cases hPrepare
    have hFits := b.allocated.fits
    refine ⟨hSpec.1, ?_⟩
    unfold room
    omega

/- The bytes of a read, behind those that are there. -/
def append (b : Buffer B) (bs : List B) (hRoom : bs.length ≤ b.room) : Buffer B where
  data := b.data ++ bs
  cap := b.cap
  fits := by
    have hFits := b.fits
    unfold room at hRoom
    rw [List.length_append]
    omega

end Buffer

/-
  `readPooled`, with the buffer that the pool gave. A reader
  that goes on without an end is read again.
-/
def readPooled (b : Buffer B) (r : ByteReader B E) : Except E (List B) :=
  match hPrepare : b.prepare with
  | none =>
    match r.readAll with
    | .error err => .error err
    | .ok rest => .ok (b.data ++ rest)
  | some a =>
    have hCases := r.read_cases a.room
    match hEnded : (r.read a.room).ended with
    | some (some err) => .error err
    | some none => .ok (a.data ++ (r.read a.room).bytes)
    | none =>
      have := weight_read_lt (Buffer.prepare_spec hPrepare).2 hEnded
      readPooled (a.append (r.read a.room).bytes hCases.2.2.1) (r.read a.room).rest
termination_by r.weight

/- Everything that the reader has, in any pieces. -/
theorem readPooled_eq (b : Buffer B) (r : ByteReader B E) : readPooled b r = match r.stop with
    | none => .ok (b.data ++ r.content)
    | some err => .error err := by
  fun_induction readPooled b r with
  | case1 b r _ err hAll => rw [stop_of_readAll_error hAll]
  | case2 b r _ rest hAll =>
    rcases stop_of_readAll_ok hAll with ⟨hStop, rfl⟩
    rw [hStop]
  | case3 b r a _ hCases err hEnded => rw [← (hCases.2.2.2 _ hEnded).1]
  | case4 b r a hPrepare hCases hEnded =>
    have hLast := hCases.2.2.2 _ hEnded
    have hContent := hCases.1
    rw [hLast.2, List.append_nil] at hContent
    rw [← hLast.1, (Buffer.prepare_spec hPrepare).1, hContent]
  | case5 b r a hPrepare hCases hEnded _ ih =>
    rw [ih, hCases.2.1]
    have hData : (a.append (r.read a.room).bytes hCases.2.2.1).data ++
      (r.read a.room).rest.content = b.data ++ r.content := by
      unfold Buffer.append
      rw [List.append_assoc, hCases.1, (Buffer.prepare_spec hPrepare).1]
    rw [hData]

-- The Standby

/- How a call of the sink ends. -/
inductive SinkResult where
  | ok
  | failed
  | panicked
  deriving DecidableEq, Repr

/- One call of `Apply`. -/
structure ApplyCall where
  mkt : MarketID
  txid : UInt64
  body : List UInt8
  result : SinkResult
  deriving DecidableEq

/- What a sink answers about a snapshot. -/
inductive SnapshotResult where
  | snapshot (body : Except Unit (List UInt8)) (txid : UInt64)
  | caughtUp
  | failed
  | panicked
  deriving DecidableEq

structure FrameSink where
  apply : MarketID → UInt64 → List UInt8 → SinkResult
  snapshot : MarketID → UInt64 → SnapshotResult

/- A server without a sink answers like a closed one. -/
structure PeerServer where
  closed : Bool
  sink : Option FrameSink

namespace PeerServer

/- The sink, if the server is willing to use it. -/
def active (s : PeerServer) : Option FrameSink :=
  if s.closed then none else s.sink

/- The response, and the calls of the sink on the way. -/
def onWALFrame (s : PeerServer) (payload : List UInt8) : List UInt8 × List ApplyCall :=
  match s.active with
  | none => (encodeAck errCodeNotStandby .zero 0, [])
  | some sink =>
    match decodeWALFrameReq payload with
    | .error _ => (encodeAck errCodeBadFrame .zero 0, [])
    | .ok (mkt, txid, body) =>
      let result := sink.apply mkt txid.toUInt64 body
      let call : ApplyCall := ⟨mkt, txid.toUInt64, body, result⟩
      match result with
      | .ok => (encodeAck errCodeOK mkt txid, [call])
      | .failed => (encodeAck errCodeServerInternal mkt txid, [call])
      | .panicked => (encodeAck errCodeServerInternal .zero 0, [call])

/- The response to a request for a snapshot. -/
def onSnapshotReq (s : PeerServer) (payload : List UInt8) : List UInt8 :=
  match s.active with
  | none => encodeSnapshotResp errCodeNotStandby .zero 0 []
  | some sink =>
    match decodeSnapshotReq payload with
    | .error _ => encodeSnapshotResp errCodeBadFrame .zero 0 []
    | .ok (mkt, fromTXID) =>
      match sink.snapshot mkt fromTXID with
      | .caughtUp => encodeSnapshotResp errCodeOK mkt fromTXID []
      | .failed => encodeSnapshotResp errCodeUnknownMarket mkt 0 []
      | .panicked => encodeSnapshotResp errCodeServerInternal .zero 0 []
      | .snapshot (.error _) _ => encodeSnapshotResp errCodeServerInternal mkt 0 []
      | .snapshot (.ok body) txid => encodeSnapshotResp errCodeOK mkt txid body

end PeerServer

-- The Owner

inductive PeerErr where
  | closedPipe
  | nilNode
  | readLtx (err : Err)
  | ackCall (err : Err)
  | decodeAck (msg : String)
  | ack (code : UInt8) (txid : UInt64)
  | marketMismatch
  | txidMismatch (want : UInt64) (got : UInt32)
  deriving DecidableEq

/-
  A client, the standby that its node reaches, and whether
  the call fails on the way. The call may fail after the
  standby has seen the request.
-/
structure PeerExchange where
  marketID : MarketID
  closed : Bool
  hasNode : Bool
  server : PeerServer
  callErr : Option Err
  pooled : Nat
  now : Int

namespace PeerExchange

/- The frame that the client sends. -/
def request (x : PeerExchange) (maxTXID : UInt64) (body : List UInt8) : List UInt8 :=
  encodeWALFrameReq x.marketID maxTXID.toUInt32 body

/- The buffer from the pool, emptied. -/
def buffer (x : PeerExchange) : Buffer UInt8 :=
  ⟨[], x.pooled, Nat.zero_le _⟩

/- What the client makes of the response. -/
def checkAck (x : PeerExchange) (maxTXID : UInt64) (resp : List UInt8) : Except PeerErr Unit :=
  match decodeWALFrameAck resp with
  | .error msg => .error (.decodeAck msg)
  | .ok (code, ackID, ackTXID) =>
    if code ≠ errCodeOK then .error (.ack code ackTXID.toUInt64)
    else if ackID ≠ x.marketID then .error .marketMismatch
    else if ackTXID ≠ maxTXID.toUInt32 then .error (.txidMismatch maxTXID ackTXID)
    else .ok ()

/-
  `WriteLTXFile`: its result, and the calls of the sink that
  it leads to.
-/
def writeLTXFile (x : PeerExchange) (level : Nat) (minTXID maxTXID : UInt64)
    (r : ByteReader UInt8 Err) :
    Except PeerErr FileInfo × List ApplyCall :=
  if x.closed then (.error .closedPipe, [])
  else if !x.hasNode then (.error .nilNode, [])
  else
    match readPooled x.buffer r with
    | .error err => (.error (.readLtx err), [])
    | .ok body =>
      let answer := x.server.onWALFrame (x.request maxTXID body)
      match x.callErr with
      | some err => (.error (.ackCall err), answer.2)
      | none =>
        match x.checkAck maxTXID answer.1 with
        | .error err => (.error err, answer.2)
        | .ok () =>
          (.ok
            { level := level
              minTXID := minTXID.toNat
              maxTXID := maxTXID.toNat
              size := body.length
              createdAt := x.now },
            answer.2)

end PeerExchange

-- Acknowledged Frames

variable {x : PeerExchange} {maxTXID : UInt64} {body : List UInt8} {r : ByteReader UInt8 Err}

theorem checkAck_ok {code mkt txid}
    (hCheck : x.checkAck maxTXID (encodeAck code mkt txid) = .ok ()) :
    code = errCodeOK ∧ mkt = x.marketID ∧ txid = maxTXID.toUInt32 := by
  unfold PeerExchange.checkAck at hCheck
  rw [decodeWALFrameAck_encode] at hCheck
  dsimp only at hCheck
  split at hCheck
  · cases hCheck
  rename_i hCode
  split at hCheck
  · cases hCheck
  rename_i hMarket
  split at hCheck
  · cases hCheck
  · rename_i hTxid
    exact ⟨not_not.mp hCode, not_not.mp hMarket, not_not.mp hTxid⟩

theorem onWALFrame_accepted (hShort : body.length < 2 ^ 32)
    (hCheck : x.checkAck maxTXID (x.server.onWALFrame (x.request maxTXID body)).1 = .ok ()) :
    (x.server.onWALFrame (x.request maxTXID body)).2 =
      [⟨x.marketID, maxTXID.toUInt32.toUInt64, body, .ok⟩] := by
  unfold PeerServer.onWALFrame PeerExchange.request at hCheck ⊢
  cases hActive : x.server.active with
  | none =>
    rw [hActive] at hCheck
    exact absurd (checkAck_ok hCheck).1 (by decide)
  | some sink =>
    rw [hActive, decodeWALFrameReq_encode _ _ hShort] at hCheck
    rw [decodeWALFrameReq_encode _ _ hShort]
    dsimp only at hCheck ⊢
    cases hResult : sink.apply x.marketID maxTXID.toUInt32.toUInt64 body with
    | ok => rfl
    | failed | panicked =>
      rw [hResult] at hCheck
      exact absurd (checkAck_ok hCheck).1 (by decide)

/- What a success of the client means. -/
theorem writeLTXFile_ok {level : Nat} {minTXID} (hShort : r.content.length < 2 ^ 32) {info}
    (hOk : (x.writeLTXFile level minTXID maxTXID r).1 = .ok info) :
    (x.writeLTXFile level minTXID maxTXID r).2 =
      [⟨x.marketID, maxTXID.toUInt32.toUInt64, r.content, .ok⟩] := by
  unfold PeerExchange.writeLTXFile at hOk ⊢
  split at hOk
  · cases hOk
  split at hOk
  · cases hOk
  rename_i hOpen hNode
  rw [readPooled_eq] at hOk ⊢
  rw [if_neg hOpen, if_neg hNode]
  cases hStop : r.stop with
  | some err =>
    rw [hStop] at hOk
    cases hOk
  | none =>
    rw [hStop] at hOk
    have hBody : x.buffer.data ++ r.content = r.content := rfl
    cases hCall : x.callErr with
    | some err =>
      rw [hCall] at hOk
      cases hOk
    | none =>
      rw [hCall] at hOk
      dsimp only at hOk ⊢
      split at hOk
      · cases hOk
      · rename_i hCheck
        exact onWALFrame_accepted hShort hCheck

/- An open standby with a sink that accepts everything. -/
def readyExchange (mkt : MarketID) : PeerExchange where
  marketID := mkt
  closed := false
  hasNode := true
  server := ⟨false, some ⟨fun _ _ _ => .ok, fun _ _ => .failed⟩⟩
  callErr := none
  pooled := ltxPoolCap
  now := 0

theorem readyExchange_ok (mkt : MarketID) (level : Nat) (minTXID maxTXID : UInt64)
    (hStop : r.stop = none) (hShort : r.content.length < 2 ^ 32) :
    ∃ info, ((readyExchange mkt).writeLTXFile level minTXID maxTXID r).1 = .ok info := by
  have hBody : readPooled (readyExchange mkt).buffer r = .ok r.content := by
    rw [readPooled_eq, hStop]
    rfl
  have hCheck : (readyExchange mkt).checkAck maxTXID ((readyExchange mkt).server.onWALFrame
    ((readyExchange mkt).request maxTXID r.content)).1 = .ok () := by
    unfold PeerServer.onWALFrame PeerExchange.request
    rw [decodeWALFrameReq_encode _ _ hShort]
    unfold PeerExchange.checkAck
    dsimp only [readyExchange, PeerServer.active]
    rw [if_neg Bool.false_ne_true]
    rw [decodeWALFrameAck_encode]
    simp
  unfold PeerExchange.writeLTXFile
  rw [hBody]
  dsimp only
  rw [hCheck]
  exact ⟨_, rfl⟩

/-
  A frame is acknowledged exactly as it was written, by any
  standby and however the reader delivers it, if and only if
  its TXID fits into four bytes.
-/
theorem peer_ack_exact_iff
    (mkt : MarketID)
    (level : Nat)
    (minTXID maxTXID : UInt64)
    (body : List UInt8)
    (hShort : body.length < 2 ^ 32) :
    (∀ (x : PeerExchange) (r : ByteReader UInt8 Err) info,
      x.marketID = mkt → r.content = body →
      (x.writeLTXFile level minTXID maxTXID r).1 =
        .ok info →
      (x.writeLTXFile level minTXID maxTXID r).2 =
        [⟨mkt, maxTXID, body, .ok⟩]) ↔
    maxTXID.toNat < 2 ^ 32 := by
  have hLow : maxTXID.toUInt32.toUInt64.toNat = maxTXID.toNat % 2 ^ 32 := by
    rw [UInt32.toNat_toUInt64, UInt64.toNat_toUInt32]
  constructor
  · intro hExact
    let r : ByteReader UInt8 Err := ⟨[body], none, false⟩
    have hContent : r.content = body := by simp [r, content]
    rcases readyExchange_ok mkt level minTXID maxTXID
      (rfl : r.stop = none) (hContent.symm ▸ hShort) with
      ⟨info, hOk⟩
    have hApplied := writeLTXFile_ok (hContent.symm ▸ hShort) hOk
    rw [hExact _ r info rfl hContent hOk] at hApplied
    have hCall := List.head_eq_of_cons_eq hApplied
    have hTxid := congrArg (fun c => c.txid.toNat) hCall
    rw [hTxid]
    exact Nat.mod_lt _ (by decide)
  · intro hFits x r info hMarket hContent hOk
    have hShort' : r.content.length < 2 ^ 32 := hContent.symm ▸ hShort
    have hSame : maxTXID.toUInt32.toUInt64 = maxTXID := by
      apply UInt64.toNat_inj.mp
      exact Nat.mod_eq_of_lt hFits
    rw [writeLTXFile_ok hShort' hOk, hMarket, hContent, hSame]

/- The TXID 2^32 + 5 is applied as 5, and acknowledged. -/
theorem peer_ack_wrong_txid :
    ∃ info,
      ((readyExchange .zero).writeLTXFile 0 4294967301
        4294967301 ⟨[[1, 2, 3]], none, false⟩).1 =
        .ok info ∧
      ((readyExchange .zero).writeLTXFile 0 4294967301
        4294967301 ⟨[[1, 2, 3]], none, false⟩).2 =
        [⟨.zero, 5, [1, 2, 3], .ok⟩] := by
  have hShort : (⟨[[1, 2, 3]], none, false⟩ : ByteReader UInt8 Err).content.length < 2 ^ 32 := by
    decide
  rcases readyExchange_ok .zero 0 4294967301 4294967301 (rfl : (⟨[[1, 2, 3]], none, false⟩ :
    ByteReader UInt8 Err).stop = none) hShort with
    ⟨info, hOk⟩
  exact ⟨info, hOk, writeLTXFile_ok hShort hOk⟩

/- A frame that fits, in two pieces. -/
theorem peer_ack_exact_small :
    (5 : UInt64).toNat < 2 ^ 32 ∧
    ∀ (x : PeerExchange) (r : ByteReader UInt8 Err) info,
      x.marketID = .zero → r.content = [1, 2, 3] →
      (x.writeLTXFile 0 5 5 r).1 = .ok info →
      (x.writeLTXFile 0 5 5 r).2 =
        [⟨.zero, 5, [1, 2, 3], .ok⟩] :=
  ⟨by decide, (peer_ack_exact_iff .zero 0 5 5 [1, 2, 3] (by decide)).mpr (by decide)⟩

-- Snapshots

/- The snapshot messages have room for every TXID. -/
theorem snapshot_exchange_exact
    {s : PeerServer}
    {sink : FrameSink}
    (hActive : s.active = some sink)
    (mkt : MarketID)
    (fromTXID : UInt64)
    {txid : UInt64}
    (hSnapshot :
      sink.snapshot mkt fromTXID =
        .snapshot (.ok body) txid) :
    decodeSnapshotResp
      (s.onSnapshotReq (encodeSnapshotReq mkt fromTXID)) =
      .ok (errCodeOK, mkt, txid, body) := by
  unfold PeerServer.onSnapshotReq
  rw [hActive, decodeSnapshotReq_encode]
  dsimp only
  rw [hSnapshot]
  exact decodeSnapshotResp_encode errCodeOK mkt txid body

/- A snapshot at a TXID of more than 32 bits. -/
theorem snapshot_exchange_large :
    decodeSnapshotResp
      (PeerServer.onSnapshotReq
        ⟨false,
          some
            ⟨fun _ _ _ => .ok,
              fun _ _ => .snapshot (.ok [1, 2]) 4294967301⟩⟩
        (encodeSnapshotReq .zero 7)) =
      .ok (errCodeOK, .zero, 4294967301, [1, 2]) :=
  snapshot_exchange_exact rfl .zero 7 rfl

end Replicate
