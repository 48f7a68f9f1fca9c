import TraCR.Lib.Records

/-!
# Marker payloads

The 16-byte record of `marker_management_engine.hpp`, its reserved event ids and
its bytes in memory (little-endian, in field order, without padding).
-/

namespace TraCR

open TraCR.Lib.Records

structure Payload where
  channelId : UInt16
  eventId : UInt16
  extraId : UInt32
  timestamp : UInt64
deriving DecidableEq, Repr

/-- `UINT32_MAX`, the extra id of a marker without one. -/
def uint32Max : UInt32 := 4294967295

def uint64Max : UInt64 := 18446744073709551615

/-- Closes the currently open event on a channel. -/
def eventIdReset : UInt16 := 65535

/-- Flow arrow source; the extra id carries the flow id. -/
def eventIdFlowStart : UInt16 := eventIdReset - 1

def eventIdFlowEnd : UInt16 := eventIdReset - 2

def eventIdReservedMin : UInt16 := eventIdFlowEnd

namespace Payload

/-- The test every exporter makes before it touches the channel state. -/
def isFlow (p : Payload) : Bool :=
  p.eventId = eventIdFlowStart || p.eventId = eventIdFlowEnd

def isReset (p : Payload) : Bool := p.eventId = eventIdReset

def isSet (p : Payload) : Bool := !p.isFlow && !p.isReset

/-- Timestamps are compared as numbers. -/
def time (p : Payload) : Nat := p.timestamp.toNat

def size : Nat := 16

def toBytes (p : Payload) : List UInt8 :=
  toLE 2 p.channelId.toNat ++ toLE 2 p.eventId.toNat ++
    toLE 4 p.extraId.toNat ++ toLE 8 p.timestamp.toNat

def ofBytes (bytes : List UInt8) : Payload where
  channelId := .ofNat (ofLE (bytes.take 2))
  eventId := .ofNat (ofLE ((bytes.drop 2).take 2))
  extraId := .ofNat (ofLE ((bytes.drop 4).take 4))
  timestamp := .ofNat (ofLE ((bytes.drop 8).take 8))

@[simp] theorem length_toBytes (p : Payload) : p.toBytes.length = size := by
  simp [toBytes, size]

@[simp] theorem ofBytes_toBytes (p : Payload) : ofBytes p.toBytes = p := by
  have hchannel := @ofLE_toLE 2 _ p.channelId.toNat_lt
  have hevent := @ofLE_toLE 2 _ p.eventId.toNat_lt
  have hextra := @ofLE_toLE 4 _ p.extraId.toNat_lt
  have htime := @ofLE_toLE 8 _ p.timestamp.toNat_lt
  have hdrop : ∀ width n k, width ≤ k → (toLE width n).drop k = [] :=
    fun width n k h => List.drop_eq_nil_of_le (by simpa using h)
  have htake : ∀ width n, (toLE width n).take width = toLE width n :=
    fun width n => List.take_of_length_le (by simp)
  simp [ofBytes, toBytes, List.drop_append, hdrop, htake, hchannel, hevent,
    hextra, htime]

theorem isSet_iff {p : Payload} :
    p.isSet = true ↔ p.isFlow = false ∧ p.eventId ≠ eventIdReset := by
  simp [isSet, isReset]

end Payload

/-- Bytes of a buffer of payloads, as `ofs.write` puts them into a file. -/
def payloadBytes (payloads : List Payload) : List UInt8 :=
  payloads.flatMap Payload.toBytes

/-- The payloads a reader finds in a file: `filesize / sizeof(Payload)` records. -/
def readPayloads (bytes : List UInt8) : List Payload :=
  readRecords Payload.size Payload.ofBytes bytes

@[simp] theorem readPayloads_payloadBytes (payloads : List Payload) :
    readPayloads (payloadBytes payloads) = payloads := by
  have htail : ([] : List UInt8).length < Payload.size := by decide
  have h := readRecords_flatMap Payload.length_toBytes Payload.ofBytes_toBytes payloads htail
  simpa [readPayloads, payloadBytes] using h

end TraCR
