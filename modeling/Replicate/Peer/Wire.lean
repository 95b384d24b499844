import Replicate.Lib.LittleEndian

/-
  The messages between the owner of a market and its
  standby.

  All fields have a fixed width and are little-endian. The
  market is named by eight bytes. A WAL frame carries its
  TXID in four bytes, and so does its acknowledgement; the
  snapshot messages carry it in eight.

  Main declarations:
    * `decodeWALFrameReq_encode`
    * `decodeWALFrameAck_encode`
    * `decodeSnapshotReq_encode`
    * `decodeSnapshotResp_encode`
-/

-- Markets And Codes

namespace Replicate

open LittleEndian List

variable {front back : List UInt8} {offset : Nat}

/- The handle of a market. -/
structure MarketID where
  bytes : List UInt8
  length_eq : bytes.length = 8
  deriving DecidableEq

/- `copy` into an array of eight bytes. -/
def marketIDFromBytes (bs : List UInt8) : MarketID where
  bytes := (bs ++ replicate 8 0).take 8
  length_eq := by simp

/- The zero value. -/
def MarketID.zero : MarketID :=
  marketIDFromBytes []

theorem marketIDFromBytes_bytes (mkt : MarketID) : marketIDFromBytes mkt.bytes = mkt := by
  cases mkt with
  | mk bytes length_eq =>
    unfold marketIDFromBytes
    congr 1
    rw [take_append_of_le_length (Nat.le_of_eq length_eq.symm)]
    exact take_of_length_le (Nat.le_of_eq length_eq)

/- The first byte of every response. -/
def errCodeOK : UInt8 := 0x00
def errCodeBadFrame : UInt8 := 0x01
def errCodeUnknownMarket : UInt8 := 0x02
def errCodeServerInternal : UInt8 := 0x03
def errCodeNotStandby : UInt8 := 0x04

-- Fields At Offsets

/- The bytes of a field. -/
def field (payload : List UInt8) (offset width : Nat) : List UInt8 :=
  (payload.drop offset).take width

theorem field_append {width : Nat} (hLength : front.length = offset) :
    field (front ++ back) offset width = back.take width := by
  subst hLength
  unfold field
  rw [drop_left]

theorem field_middle {middle} {width : Nat} (hFront : front.length = offset)
    (hMiddle : middle.length = width) :
    field (front ++ (middle ++ back)) offset width = middle := by
  subst hMiddle
  rw [field_append hFront, take_left]

theorem market_middle (mkt : MarketID) (hFront : front.length = offset) :
    marketIDFromBytes (field (front ++ (mkt.bytes ++ back)) offset 8) = mkt := by
  rw [field_middle hFront mkt.length_eq]
  exact marketIDFromBytes_bytes mkt

-- WAL Frames

/- `walFrameHeaderLen`: market, TXID and length. -/
def walFrameHeaderLen : Nat := 8 + 4 + 4

/- `ackLen`: code, market and TXID. -/
def ackLen : Nat := 1 + 8 + 4

def encodeWALFrameReq (mkt : MarketID) (txid : UInt32) (body : List UInt8) : List UInt8 :=
  mkt.bytes ++ (LittleEndian.bytes 4 txid.toNat ++ (LittleEndian.bytes 4 body.length ++ body))

def decodeWALFrameReq (payload : List UInt8) : Except String (MarketID × UInt32 × List UInt8) :=
  if payload.length < walFrameHeaderLen then .error "short wal frame"
  else if value (field payload 12 4) ≠ payload.length - walFrameHeaderLen then
    .error "frame_len mismatch"
  else
    .ok (marketIDFromBytes (field payload 0 8), UInt32.ofNat (value (field payload 8 4)),
      payload.drop walFrameHeaderLen)

def encodeAck (code : UInt8) (mkt : MarketID) (txid : UInt32) : List UInt8 :=
  [code] ++ (mkt.bytes ++ LittleEndian.bytes 4 txid.toNat)

def decodeWALFrameAck (payload : List UInt8) : Except String (UInt8 × MarketID × UInt32) :=
  if payload.length < ackLen then .error "short ack"
  else
    .ok (payload.headD 0, marketIDFromBytes (field payload 1 8),
      UInt32.ofNat (value (field payload 9 4)))

theorem ofNat_value_bytes (txid : UInt32) : UInt32.ofNat (value
    (LittleEndian.bytes 4 txid.toNat)) = txid := by
  have hFits : txid.toNat < 256 ^ 4 := txid.toNat_lt
  rw [value_bytes_of_lt hFits]
  exact UInt32.ofNat_toNat

theorem length_encodeWALFrameReq (mkt : MarketID) (txid : UInt32) (body : List UInt8) :
    (encodeWALFrameReq mkt txid body).length = walFrameHeaderLen + body.length := by
  simp only [encodeWALFrameReq, walFrameHeaderLen, length_append, length_bytes, mkt.length_eq]
  omega

/- A frame is what it was, unless its length is cut. -/
theorem decodeWALFrameReq_encode (mkt : MarketID) (txid : UInt32) {body}
    (hShort : body.length < 2 ^ 32) :
    decodeWALFrameReq (encodeWALFrameReq mkt txid body) = .ok (mkt, txid, body) := by
  have hLength := length_encodeWALFrameReq mkt txid body
  have hMarket : marketIDFromBytes (field (encodeWALFrameReq mkt txid body) 0 8) =
    mkt := market_middle mkt length_nil
  have hTxid : field (encodeWALFrameReq mkt txid body) 8 4 = LittleEndian.bytes 4 txid.toNat :=
    field_middle mkt.length_eq (length_bytes 4 txid.toNat)
  have hRest : encodeWALFrameReq mkt txid body = (mkt.bytes ++ LittleEndian.bytes 4 txid.toNat) ++
    (LittleEndian.bytes 4 body.length ++ body) :=
    (append_assoc _ _ _).symm
  have hFront : (mkt.bytes ++ LittleEndian.bytes 4 txid.toNat).length = 12 := by
    rw [length_append, mkt.length_eq, length_bytes]
  have hLen : field (encodeWALFrameReq mkt txid body) 12 4 = LittleEndian.bytes 4 body.length := by
    rw [hRest]
    exact field_middle hFront (length_bytes 4 body.length)
  have hBody : (encodeWALFrameReq mkt txid body).drop walFrameHeaderLen = body := by
    rw [hRest, ← append_assoc]
    apply drop_left'
    rw [length_append, hFront, length_bytes]
    rfl
  have hFits : body.length < 256 ^ 4 := hShort
  unfold decodeWALFrameReq
  rw [hLength, hMarket, hTxid, hLen, hBody, ofNat_value_bytes, value_bytes_of_lt hFits,
    if_neg (by omega), if_neg (by omega)]

/- The answer of the standby arrives as it was sent. -/
theorem decodeWALFrameAck_encode (code : UInt8) (mkt : MarketID) (txid : UInt32) :
    decodeWALFrameAck (encodeAck code mkt txid) = .ok (code, mkt, txid) := by
  have hLength : (encodeAck code mkt txid).length = 13 := by
    simp only [encodeAck, length_append, length_bytes, mkt.length_eq, length_singleton]
  have hMarket : marketIDFromBytes (field (encodeAck code mkt txid) 1 8) =
    mkt := market_middle mkt length_singleton
  have hTxid : field (encodeAck code mkt txid) 9 4 = LittleEndian.bytes 4 txid.toNat := by
    have hFront : ([code] ++ mkt.bytes).length = 9 := by
      rw [length_append, mkt.length_eq]
      rfl
    have hRest : encodeAck code mkt txid = ([code] ++ mkt.bytes) ++
      (LittleEndian.bytes 4 txid.toNat ++ []) := by
      simp [encodeAck]
    exact field_middle hFront (length_bytes 4 txid.toNat)
  unfold decodeWALFrameAck ackLen
  rw [hLength, hMarket, hTxid, ofNat_value_bytes, if_neg (by omega)]
  rfl

-- Snapshots

def snapshotReqLen : Nat := 8 + 8

def snapshotRespHdrLen : Nat := 1 + 8 + 8

def encodeSnapshotReq (mkt : MarketID) (fromTXID : UInt64) : List UInt8 :=
  mkt.bytes ++ LittleEndian.bytes 8 fromTXID.toNat

def decodeSnapshotReq (payload : List UInt8) : Except String (MarketID × UInt64) :=
  if payload.length < snapshotReqLen then .error "short snapshot req"
  else
    .ok (marketIDFromBytes (field payload 0 8), UInt64.ofNat (value (field payload 8 8)))

def encodeSnapshotResp (code : UInt8) (mkt : MarketID) (txid : UInt64)
    (body : List UInt8) : List UInt8 :=
  [code] ++ (mkt.bytes ++ (LittleEndian.bytes 8 txid.toNat ++ body))

def decodeSnapshotResp (payload : List UInt8) : Except String
    (UInt8 × MarketID × UInt64 × List UInt8) :=
  if payload.length < snapshotRespHdrLen then .error "short snapshot resp"
  else
    .ok (payload.headD 0, marketIDFromBytes (field payload 1 8),
      UInt64.ofNat (value (field payload 9 8)),
      payload.drop snapshotRespHdrLen)

theorem ofNat_value_bytes_eight (txid : UInt64) : UInt64.ofNat
    (value (LittleEndian.bytes 8 txid.toNat)) = txid := by
  have hFits : txid.toNat < 256 ^ 8 := txid.toNat_lt
  rw [value_bytes_of_lt hFits]
  exact UInt64.ofNat_toNat

theorem decodeSnapshotReq_encode (mkt : MarketID) (fromTXID : UInt64) :
    decodeSnapshotReq (encodeSnapshotReq mkt fromTXID) = .ok (mkt, fromTXID) := by
  have hLength : (encodeSnapshotReq mkt fromTXID).length = 16 := by
    simp only [encodeSnapshotReq, length_append, length_bytes, mkt.length_eq]
  have hMarket : marketIDFromBytes (field (encodeSnapshotReq mkt fromTXID) 0 8) =
    mkt := market_middle mkt length_nil
  have hTxid : field (encodeSnapshotReq mkt fromTXID) 8 8 =
    LittleEndian.bytes 8 fromTXID.toNat := by
    have hRest : encodeSnapshotReq mkt fromTXID = mkt.bytes ++
      (LittleEndian.bytes 8 fromTXID.toNat ++ []) := by
      simp [encodeSnapshotReq]
    exact field_middle mkt.length_eq (length_bytes 8 fromTXID.toNat)
  unfold decodeSnapshotReq snapshotReqLen
  rw [hLength, hMarket, hTxid, ofNat_value_bytes_eight, if_neg (by omega)]

theorem decodeSnapshotResp_encode (code : UInt8) (mkt : MarketID)
    (txid : UInt64) (body : List UInt8) :
    decodeSnapshotResp (encodeSnapshotResp code mkt txid body) = .ok (code, mkt, txid, body) := by
  have hFront : ([code] ++ mkt.bytes).length = 9 := by
    rw [length_append, mkt.length_eq]
    rfl
  have hRest : encodeSnapshotResp code mkt txid body = ([code] ++ mkt.bytes) ++
    (LittleEndian.bytes 8 txid.toNat ++ body) :=
    (append_assoc _ _ _).symm
  have hMarket : marketIDFromBytes (field (encodeSnapshotResp code mkt txid body) 1 8) =
    mkt := market_middle mkt length_singleton
  have hTxid : field (encodeSnapshotResp code mkt txid body) 9 8 =
    LittleEndian.bytes 8 txid.toNat := by
    exact field_middle hFront (length_bytes 8 txid.toNat)
  have hBody : (encodeSnapshotResp code mkt txid body).drop snapshotRespHdrLen = body := by
    rw [hRest, ← append_assoc]
    apply drop_left'
    rw [length_append, hFront, length_bytes]
    rfl
  have hLong : ¬ (encodeSnapshotResp code mkt txid body).length < snapshotRespHdrLen := by
    rw [hRest, length_append, hFront, length_append, length_bytes]
    unfold snapshotRespHdrLen
    omega
  unfold decodeSnapshotResp
  rw [if_neg hLong, hMarket, hTxid, hBody, ofNat_value_bytes_eight]
  rfl

end Replicate
