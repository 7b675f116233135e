import Netstack2.Flow
import Netstack2.Lib.Bytes

/-!
# Hashes of flows

A flow is given to a shard by its hash. The two directions of a connection have one hash,
as it is taken of the *canonical* flow, whose source is the smaller one of the two ends.

* `canonical_reverseFlow`, `canonical_canonical`: the order of the ends is total, so the
  canonical flow is the same for both directions, and for itself;
* `flowToShard_lt`: there is a shard for every flow.
-/

namespace Netstack2

/-! ## The order of endpoints -/

namespace IpAddress

def bytes : IpAddress → Bytes
  | ipv4 bytes => bytes.toList
  | ipv6 bytes => bytes.toList

/-- IPv4 comes before IPv6; otherwise the bytes are compared. -/
def less : IpAddress → IpAddress → Bool
  | ipv4 a, ipv4 b => a.toList < b.toList
  | ipv4 _, ipv6 _ => true
  | ipv6 _, ipv4 _ => false
  | ipv6 a, ipv6 b => a.toList < b.toList

theorem less_asymm {a b : IpAddress} (h : a.less b) : b.less a = false := by
  cases a with
  | ipv4 =>
    cases b with
    | ipv4 => exact decide_eq_false (List.lt_asymm (of_decide_eq_true h))
    | ipv6 => rfl
  | ipv6 =>
    cases b with
    | ipv4 => exact absurd h Bool.false_ne_true
    | ipv6 => exact decide_eq_false (List.lt_asymm (of_decide_eq_true h))

theorem eq_of_not_less {a b : IpAddress} (hab : a.less b = false) (hba : b.less a = false) :
    a = b := by
  cases a with
  | ipv4 =>
    cases b with
    | ipv4 =>
      rw [Vector.toList_inj.1 (List.le_antisymm (List.not_lt.1 (of_decide_eq_false hba))
        (List.not_lt.1 (of_decide_eq_false hab)))]
    | ipv6 => exact absurd hab.symm Bool.false_ne_true
  | ipv6 =>
    cases b with
    | ipv4 => exact absurd hba.symm Bool.false_ne_true
    | ipv6 =>
      rw [Vector.toList_inj.1 (List.le_antisymm (List.not_lt.1 (of_decide_eq_false hba))
        (List.not_lt.1 (of_decide_eq_false hab)))]

end IpAddress

/-- One end of a flow. -/
structure Endpoint where
  addr : IpAddress
  port : UInt16

namespace Endpoint

def less (a b : Endpoint) : Bool :=
  if a.addr.less b.addr then true
  else if b.addr.less a.addr then false
  else a.port < b.port

theorem less_asymm {a b : Endpoint} (h : a.less b) : b.less a = false := by
  rw [less] at h ⊢
  split at h
  case isTrue haddr => rw [IpAddress.less_asymm haddr, haddr, if_neg Bool.false_ne_true, if_pos rfl]
  case isFalse haddr =>
    split at h
    case isTrue => exact absurd h Bool.false_ne_true
    case isFalse haddr' =>
      rw [if_neg haddr', if_neg haddr]
      exact decide_eq_false (UInt16.lt_asymm (of_decide_eq_true h))

theorem eq_of_not_less {a b : Endpoint} (hab : a.less b = false) (hba : b.less a = false) :
    a = b := by
  rw [less] at hab hba
  split at hab
  case isTrue => exact absurd hab.symm Bool.false_ne_true
  case isFalse haddr =>
    split at hba
    case isTrue => exact absurd hba.symm Bool.false_ne_true
    case isFalse haddr' =>
      rw [if_neg haddr'] at hab
      have hle : a.port ≤ b.port := UInt16.not_lt.1 (of_decide_eq_false hba)
      have hge : b.port ≤ a.port := UInt16.not_lt.1 (of_decide_eq_false hab)
      have haddreq := IpAddress.eq_of_not_less (Bool.not_eq_true _ ▸ haddr)
        (Bool.not_eq_true _ ▸ haddr')
      cases a with | mk addr port =>
      cases b with | mk addr' port' =>
      obtain rfl : addr = addr' := haddreq
      obtain rfl : port = port' := UInt16.le_antisymm hle hge
      rfl

end Endpoint

/-! ## Canonical flows -/

namespace FlowKey

/-- The flow with the smaller end as its source. -/
def canonical (flow : FlowKey) : FlowKey :=
  if Endpoint.less ⟨flow.destination, flow.destinationPort⟩ ⟨flow.source, flow.sourcePort⟩ then
    reverseFlow flow
  else flow

theorem canonical_canonical (flow : FlowKey) : flow.canonical.canonical = flow.canonical := by
  by_cases h : Endpoint.less ⟨flow.destination, flow.destinationPort⟩ ⟨flow.source, flow.sourcePort⟩
  · have hback := Endpoint.less_asymm h
    rw [canonical.eq_def flow, if_pos h, canonical, reverseFlow]
    exact if_neg (Bool.eq_false_iff.1 hback)
  · rw [canonical.eq_def flow, if_neg h, canonical, if_neg h]

theorem canonical_reverseFlow (flow : FlowKey) : (reverseFlow flow).canonical = flow.canonical := by
  by_cases h : Endpoint.less ⟨flow.destination, flow.destinationPort⟩ ⟨flow.source, flow.sourcePort⟩
  · have hback := Endpoint.less_asymm h
    rw [canonical.eq_def flow, if_pos h, canonical]
    exact if_neg (Bool.eq_false_iff.1 hback)
  · rw [canonical.eq_def flow, if_neg h, canonical]
    split
    case isTrue => rfl
    case isFalse hback =>
      -- neither end is smaller, so both are the same
      have heq := Endpoint.eq_of_not_less (Bool.not_eq_true _ ▸ h) (Bool.not_eq_true _ ▸ hback)
      obtain ⟨haddr, hport⟩ := Endpoint.mk.inj heq
      rw [reverseFlow, haddr, hport]
      cases flow
      cases haddr
      cases hport
      rfl

end FlowKey

/-! ## Hashes -/

/-- The hash FNV-1a, of 64 bits. -/
def fnv1a64 (data : Bytes) : UInt64 :=
  data.foldl (fun hash byte => (hash ^^^ byte.toUInt64) * 0x100000001b3) 0xcbf29ce484222325

/-- An IPv4 address is padded, so that both families take the same width. -/
def IpAddress.padded (address : IpAddress) : Bytes :=
  address.bytes ++ if address.isIpv4 then .replicate 12 0 else []

def flowHash (key : FlowKey) : UInt64 :=
  let canon := key.canonical
  fnv1a64 ([if canon.source.isIpv4 then 0 else 1] ++ canon.source.padded ++
    canon.destination.padded ++ bigEndian 2 canon.sourcePort.toNat ++
    bigEndian 2 canon.destinationPort.toNat ++ [canon.protocol])

def flowToShard (key : FlowKey) (shardCount : ℕ) : ℕ :=
  if shardCount = 0 then 0 else (flowHash key).toNat % shardCount

theorem flowHash_canonical (key : FlowKey) : flowHash key.canonical = flowHash key := by
  rw [flowHash, flowHash, FlowKey.canonical_canonical]

theorem flowHash_reverseFlow (key : FlowKey) : flowHash (reverseFlow key) = flowHash key := by
  rw [flowHash, flowHash, FlowKey.canonical_reverseFlow]

theorem flowToShard_lt (key : FlowKey) {shardCount : ℕ} (h : 0 < shardCount) :
    flowToShard key shardCount < shardCount := by
  rw [flowToShard, if_neg (Nat.pos_iff_ne_zero.1 h)]
  exact Nat.mod_lt _ h

end Netstack2
