import Netstack2.Tcp.Engine.Limits
import Netstack2.Tcp.Engine.Open

/-!
# Packets and the path MTU

When the path to a peer shrinks, the engine lowers the segment size of the connections
to it. What the pump builds for such a connection afterwards fits the path
(`packets_fit_lowered_path`), under two conditions: the connection was past its
handshake, since a send buffer that is opened later has the segment size of the SYN;
and there is room for the options, which the segment size does not account for. The
second one is met if no options were negotiated. Otherwise, a packet may be longer
than the path allows (`packet_exceeds_lowered_path`).
-/

namespace Netstack2

open List

open TcpSendBuffer

variable {κ : Type} [CongestionController κ]

/-- The headers of a segment to the peer without options. -/
def fixedHeaderBytes (peer : IpAddress) : ℕ := if peer.isIpv4 then 40 else 60

/-- The payload that a path of `pmtu` bytes has room for, without options. -/
def pathMss (peer : IpAddress) (pmtu : ℕ) : UInt16 :=
  UInt16.ofNat (min (pmtu - fixedHeaderBytes peer) 65535)

/-! ## What the pump builds -/

namespace TcpHandshakeEngine

/-- From `e` to `e'`, segments are built for connections of `l`: each carries what the
    send buffer of a connection asks for, and its packet was built. -/
def Builds (env : Env) (nowMs : ℕ) (l : List (Pcb κ)) (e e' : TcpHandshakeEngine κ) : Prop :=
  ∃ added, e'.history = e.history ++ added ∧ ∀ id response, (id, .built response) ∈ added →
    ∃ p ∈ l, ∃ send, p.flowId = id ∧ p.send = some send ∧
      response = p.dataSegment (send.nextSegment (p.scaledPeerWindow p.peerWindow) nowMs).2 nowMs ∧
      (buildTcpControlPacket response env.slotCapacity).isOk = true

variable {env : Env} {nowMs : ℕ} {l : List (Pcb κ)} {e e' e'' : TcpHandshakeEngine κ}

theorem Builds.of_history (h : e'.history = e.history) : Builds env nowMs l e e' :=
  ⟨[], by rw [h, append_nil], fun _ _ hmem => by cases hmem⟩

theorem Builds.trans (h : Builds env nowMs l e e') (h' : Builds env nowMs l e' e'') :
    Builds env nowMs l e e'' := by
  obtain ⟨added, heq, hall⟩ := h
  obtain ⟨added', heq', hall'⟩ := h'
  refine ⟨added ++ added', by rw [heq', heq, append_assoc], fun id response hmem => ?_⟩
  exact (mem_append.1 hmem).elim (hall id response) (hall' id response)

theorem pumpOne_builds {i : ℕ} {p : Pcb κ} {send : TcpSendBuffer κ} (hp : p ∈ l)
    (hs : p.send = some send) : Builds env nowMs l e (e.pumpOne env i p send nowMs).1 := by
  rw [pumpOne]
  dsimp only
  split
  · exact ⟨_, rfl, by simp⟩
  · split
    · exact ⟨_, rfl, by simp⟩
    · rename_i hbuilt
      simp only [not_or, Bool.not_eq_false] at hbuilt
      refine ⟨_, rfl, fun id response hmem => ?_⟩
      simp only [map_cons, map_nil, mem_cons, Prod.mk.injEq, reduceCtorEq, and_false,
        Observed.built.injEq, not_mem_nil, or_false, false_or] at hmem
      obtain ⟨rfl, rfl⟩ := hmem
      exact ⟨p, hp, send, rfl, hs, rfl, hbuilt.2.1⟩

theorem Walks.builds {pcbBudget maxSegments visited built : ℕ} {served : List (Pcb κ)}
    (hw : Walks env nowMs pcbBudget maxSegments visited built served e e') (hl : served ⊆ l) :
    Builds env nowMs l e e' := by
  induction hw with
  | done | stop => exact .of_history rfl
  | skip _ _ _ ih => exact ih (subset_of_cons_subset hl)
  | reap _ _ _ _ ih =>
    exact .trans (.of_history (removeAt_history ..))
      (ih (List.Subset.trans (perm_lastFirst _).subset (subset_of_cons_subset hl)))
  | serve _ hs _ _ _ _ ih =>
    exact (pumpOne_builds (hl mem_cons_self) hs).trans (ih (subset_of_cons_subset hl))

/-- What is observed of one connection. -/
theorem Builds.observed (h : Builds env nowMs l e e') {id : FlowId} {response : TcpResponse}
    (hmem : .built response ∈ (seen e'.history id).drop (seen e.history id).length) :
    ∃ p ∈ l, ∃ send, p.flowId = id ∧ p.send = some send ∧
      response = p.dataSegment (send.nextSegment (p.scaledPeerWindow p.peerWindow) nowMs).2 nowMs ∧
      (buildTcpControlPacket response env.slotCapacity).isOk := by
  obtain ⟨_, heq, hall⟩ := h
  rw [heq, seen_append, drop_left] at hmem
  obtain ⟨⟨id', _⟩, hfilter, rfl⟩ := mem_map.1 hmem
  obtain ⟨hadded, hid⟩ := mem_filter.1 hfilter
  have hid : id' = id := of_decide_eq_true hid
  subst hid
  exact hall id' response hadded

end TcpHandshakeEngine

/-! ## The length of a packet -/

namespace Pcb

section

omit [CongestionController κ]

theorem dataSegment_flags (p : Pcb κ) (next : TcpSendNextResult) (nowMs : ℕ) :
    (p.dataSegment next nowMs).flags &&& TcpFlag.syn = 0 ∧
      (p.dataSegment next nowMs).flags &&& TcpFlag.ack ≠ 0 := by
  rw [dataSegment]
  dsimp only
  split <;> split <;> decide

theorem dataSegment_sackBlocks (p : Pcb κ) (next : TcpSendNextResult) (nowMs : ℕ)
    (h : p.options.sackPermitted = false) : (p.dataSegment next nowMs).sackBlocks = [] := by
  rw [dataSegment]
  dsimp only
  split
  · rw [sackBlocks, h]
    rfl
  · rfl

/-- A segment with data is no longer than its payload and its options allow. -/
theorem length_dataSegment_le (p : Pcb κ) (next : TcpSendNextResult) (nowMs : ℕ) {capacity : ℕ}
    (h : (buildTcpControlPacket (p.dataSegment next nowMs) capacity).isOk) :
    ∃ length, buildTcpControlPacket (p.dataSegment next nowMs) capacity = .ok length ∧
      length ≤ fixedHeaderBytes p.incomingFlow.source +
        ackOptionRoom p.options.timestamps p.options.sackPermitted + next.payload.length := by
  obtain ⟨hsyn, hack⟩ := p.dataSegment_flags next nowMs
  have hoptions : serializeOptions (p.dataSegment next nowMs) =
      serializeAckOptions (p.dataSegment next nowMs) := by
    rw [serializeOptions, if_neg (not_not.2 hsyn), if_pos hack]
  rw [buildTcpControlPacket, hoptions] at h ⊢
  split at h
  case isTrue => cases h
  rename_i hprotocol
  rw [if_neg hprotocol]
  split at h
  case isTrue => cases h
  rename_i hfamily
  rw [if_neg hfamily]
  split at h
  case h_1 => cases h
  case h_2 options hserialized =>
    have hlen := length_serializeAckOptions_le hserialized (p.dataSegment_sackBlocks next nowMs)
    -- both ends are of one family, so the headers are those to the peer
    have hheader : (if (p.dataSegment next nowMs).flow.source.isIpv4 = true then 20 else 40) + 20 =
        fixedHeaderBytes p.incomingFlow.source := by
      have hfamily : p.incomingFlow.destination.family = p.incomingFlow.source.family :=
        not_not.1 hfamily
      rw [fixedHeaderBytes]
      show (if p.incomingFlow.destination.isIpv4 = true then 20 else 40) + 20 = _
      cases hsource : p.incomingFlow.source <;>
        cases hdestination : p.incomingFlow.destination <;>
          simp_all [IpAddress.family, IpAddress.isIpv4]
    dsimp only at h ⊢
    generalize (if (p.dataSegment next nowMs).flow.source.isIpv4 = true then 20 else 40) = header
      at h hheader ⊢
    split at h
    case isTrue => cases h
    case isFalse hfits =>
      rw [if_neg hfits]
      refine ⟨_, rfl, ?_⟩
      have hpayload : (p.dataSegment next nowMs).payload = next.payload := rfl
      have htimestamps : (p.dataSegment next nowMs).timestampPresent = p.options.timestamps := rfl
      rw [htimestamps] at hlen
      rw [hpayload]
      omega

/-! ## A connection after the path has shrunk -/

end

/-- The connection `p` of `p₀`, whose segment size is `mss` since. -/
structure Lowered (p₀ : Pcb κ) (mss : UInt16) (p : Pcb κ) : Prop where
  state : p.state ≠ .synReceived
  flow : p.incomingFlow = p₀.incomingFlow
  timestamps : p.options.timestamps = p₀.options.timestamps
  sackPermitted : p.options.sackPermitted = p₀.options.sackPermitted
  send : ∀ send, p.send = some send → ProbesByte send ∧ send.mss = mss

variable {c : EngineCall κ} {p₀ p p' : Pcb κ} {hist seen : List Observed} {mss : UInt16}

theorem Lowered.step (hs : Step c p seen p') (h : Lowered p₀ mss p)
    (hop : ∀ pmtu, c.op ≠ .onPathMtuLowered p₀.incomingFlow.source pmtu) : Lowered p₀ mss p' := by
  have hsame := hs.sameConnection
  refine ⟨mt hs.after.handshake h.state, hsame.incomingFlow.trans h.flow,
    hsame.timestamps.trans h.timestamps, hsame.sackPermitted.trans h.sackPermitted, ?_⟩
  intro send' hsend'
  cases hs.sendStep (fun send hs => (h.send send hs).1) hsend' with
  | opens hstate => exact absurd hstate h.state
  | settles hs _ hsettles =>
    obtain ⟨hprobes, hmss⟩ := h.send _ hs
    exact ⟨hsettles.probes hprobes, hsettles.drains.mss.trans hmss⟩
  | enqueues hs _ _ heq =>
    obtain ⟨hprobes, hmss⟩ := h.send _ hs
    subst heq
    rw [TcpSendBuffer.enqueue]
    split
    · exact ⟨hprobes, hmss⟩
    · exact ⟨⟨hprobes.probe, hprobes.pending⟩, hmss⟩
  | closes hs _ heq =>
    obtain ⟨hprobes, hmss⟩ := h.send _ hs
    subst heq
    rw [TcpSendBuffer.requestFin]
    split
    · exact ⟨hprobes, hmss⟩
    · exact ⟨⟨hprobes.probe, hprobes.pending⟩, hmss⟩
  | resizes _ _ _ hmtu =>
    rw [h.flow] at hmtu
    exact absurd hmtu (hop _)

/-- The connections opened later have other identifiers. -/
theorem kept_lowered (hid : p₀.flowId < c.nextFlowId)
    (hop : ∀ pmtu, c.op ≠ .onPathMtuLowered p₀.incomingFlow.source pmtu) :
    Kept c fun p _ => (p.flowId = p₀.flowId → Lowered p₀ mss p) ∧ True where
  step hs h := ⟨fun hp => (h.1 (hs.sameConnection.flowId ▸ hp)).step hs hop, trivial⟩
  opens _ _ _ _ _ := ⟨fun hp => absurd hp (ne_of_gt hid), trivial⟩

/-! ## The segment size is not zero -/

end Pcb

theorem TcpHandshakeConfig.localMss_ne_zero {config : TcpHandshakeConfig}
    (h : config.validate) : config.localMss ≠ 0 := by
  intro hzero
  rw [validate] at h
  split at h
  · cases h
  split at h
  · cases h
  rw [if_pos (.inl hzero)] at h
  cases h

theorem UInt16.sub_ne_zero {a b : UInt16} (h : b < a) : a - b ≠ 0 := by
  intro hzero
  have hnat : (a - b).toNat = 0 := by rw [hzero]; rfl
  rw [UInt16.toNat_sub_of_le a b (UInt16.le_of_lt h)] at hnat
  have : b.toNat < a.toNat := UInt16.lt_iff_toNat_lt.1 h
  omega

theorem UInt16.ite_ne_zero {P : Prop} [Decidable P] {a b : UInt16} (ha : P → a ≠ 0)
    (hb : b ≠ 0) : (if P then a else b) ≠ 0 := by
  split
  · exact ha ‹P›
  · exact hb

theorem TcpHandshakeConfig.localSendCap_ne_zero {config : TcpHandshakeConfig}
    (h : config.validate) (headerBytes : UInt16) : config.localSendCap headerBytes ≠ 0 :=
  UInt16.ite_ne_zero And.left
    (UInt16.ite_ne_zero (fun hpath => UInt16.sub_ne_zero hpath.1) (localMss_ne_zero h))

namespace Pcb

variable {c : EngineCall κ}

theorem kept_peerMss (c : EngineCall κ) : Kept c fun p _ =>
    (c.config.validate → p.options.peerMss ≠ 0) ∧ True where
  step hs h := ⟨fun hvalid => hs.sameConnection.peerMss ▸ h.1 hvalid, trivial⟩
  opens {segment _ offered} _ _ _ _ hoffered := by
    refine ⟨fun hvalid => ?_, trivial⟩
    have hcap := TcpHandshakeConfig.localSendCap_ne_zero hvalid
      (if segment.flow.source.isIpv4 = true then 40 else 60)
    have hmss : (if offered.mssPresent = true then offered.mss
        else if segment.flow.source.isIpv4 = true then 536 else 1220) ≠ 0 :=
      UInt16.ite_ne_zero (parseTcpSynOptions_mss hoffered)
        (UInt16.ite_ne_zero (fun _ => by decide) (by decide))
    exact UInt16.ite_ne_zero (fun _ => hcap) hmss

omit [CongestionController κ] in
theorem loweredMss_ne_zero {p : Pcb κ} {config : TcpHandshakeConfig} {pmtuMss : UInt16}
    (hvalid : config.validate) (hmss : p.options.peerMss ≠ 0) (hpath : pmtuMss ≠ 0) :
    p.loweredMss config pmtuMss ≠ 0 :=
  UInt16.ite_ne_zero And.left (UInt16.ite_ne_zero
    (fun _ => TcpHandshakeConfig.localMss_ne_zero hvalid)
    (UInt16.ite_ne_zero (fun _ => hpath) hmss))

end Pcb

namespace TcpHandshakeEngine

variable {A : EngineCall κ → Pcb κ → Prop} {e e' : TcpHandshakeEngine κ} {p p₀ : Pcb κ} {pmtu : ℕ}

theorem Reachable.peerMss_ne_zero (h : e.Reachable A) (hp : p ∈ e.pcbs) : p.options.peerMss ≠ 0 :=
  (h.knows (I := fun config p _ => config.validate = true → p.options.peerMss ≠ 0)
    (K := fun _ _ => True) (fun _ _ _ _ => trivial) Pcb.kept_peerMss).each p hp
    (reachable_iff.1 h).validConfig

theorem Reachable.loweredMss_ne_zero (h : e.Reachable A) (hp : p ∈ e.pcbs)
    (hpmtu : fixedHeaderBytes p.incomingFlow.source < pmtu) :
    p.loweredMss e.config (pathMss p.incomingFlow.source pmtu) ≠ 0 := by
  have hvalid := (reachable_iff.1 h).validConfig
  refine Pcb.loweredMss_ne_zero hvalid (h.peerMss_ne_zero hp) fun hzero => ?_
  have hnat := congrArg UInt16.toNat hzero
  rw [pathMss, UInt16.toNat_ofNat', UInt16.toNat_zero] at hnat
  omega

theorem updateMss_mss {send : TcpSendBuffer κ} {mss : UInt16} (h : mss ≠ 0) :
    (send.updateMss mss).mss = mss := by
  rw [TcpSendBuffer.updateMss]
  split
  case isTrue hsame => exact (hsame.resolve_left h).symm
  case isFalse => rfl

theorem onPathMtuLowered_pcbs (e : TcpHandshakeEngine κ) {peer : IpAddress}
    (h : fixedHeaderBytes peer < pmtu) :
    (e.onPathMtuLowered peer pmtu).pcbs = e.pcbs.map fun p =>
      if p.incomingFlow.source = peer then
        { p with send := p.send.map (·.updateMss (p.loweredMss e.config (pathMss peer pmtu))) }
      else p := by
  rw [onPathMtuLowered]
  exact congrArg TcpHandshakeEngine.pcbs (if_neg (Nat.not_le_of_lt h))

/-- A connection to the peer after the path has shrunk. -/
theorem Reachable.lowered (h : e.Reachable A)
    (hpmtu : fixedHeaderBytes p₀.incomingFlow.source < pmtu) (hp₀ : p₀ ∈ e.pcbs)
    (hstate : p₀.state ≠ .synReceived) :
    Knows (fun p _ => p.flowId = p₀.flowId →
        Pcb.Lowered p₀ (p₀.loweredMss e.config (pathMss p₀.incomingFlow.source pmtu)) p)
      (e.onPathMtuLowered p₀.incomingFlow.source pmtu) ∧
    p₀.flowId < (e.onPathMtuLowered p₀.incomingFlow.source pmtu).nextFlowId := by
  have hknows : Knows (fun _ _ => True) e := (reachable_iff.1 h).tracked
  have hcall : EngineOp.apply {} e (.onPathMtuLowered p₀.incomingFlow.source pmtu) =
    some (e.onPathMtuLowered p₀.incomingFlow.source pmtu) := rfl
  obtain ⟨hknows', -, hnext⟩ := hknows.call_apart hcall
  refine ⟨{ hknows' with each := ?_, past := ?_ }, lt_of_lt_of_le (hknows.below p₀ hp₀) hnext⟩
  · intro p hp hid
    rw [e.onPathMtuLowered_pcbs hpmtu] at hp
    obtain ⟨q, hq, rfl⟩ := mem_map.1 hp
    have hqid : q.flowId = p₀.flowId := by
      rw [← hid]
      split <;> rfl
    obtain rfl := hknows.eq_of_ident hq hp₀ hqid
    rw [if_pos rfl]
    refine ⟨hstate, rfl, rfl, rfl, fun send hsend => ?_⟩
    obtain ⟨_, hbefore, rfl⟩ := Option.map_eq_some_iff.1 hsend
    have hprobes := (h.within hq hbefore).probes
    refine ⟨?_, updateMss_mss (h.loweredMss_ne_zero hq hpmtu)⟩
    rw [TcpSendBuffer.updateMss]
    split
    · exact hprobes
    · exact ⟨hprobes.probe, hprobes.pending⟩
  · intro i
    refine (hknows'.past i).imp_right fun _ => ⟨{ p₀ with flowId := p₀.flowId + 1 }, fun hid => ?_⟩
    exact absurd hid (Nat.succ_ne_self _)

end TcpHandshakeEngine

section

variable {e e' : TcpHandshakeEngine κ} {p : Pcb κ}

/-- The path to the peer of a connection past its handshake shrinks to `pmtu` bytes.
    If the lowered segment size leaves room for the options of the connection, then what
    the pump builds for it fits the path, until the path changes again. -/
theorem packets_fit_lowered_path (h : e.Reachable fun _ _ => True) {pmtu : ℕ} (hp : p ∈ e.pcbs)
    (hpmtu : fixedHeaderBytes p.incomingFlow.source < pmtu) (hstate : p.state ≠ .synReceived)
    (hroom : (p.loweredMss e.config (pathMss p.incomingFlow.source pmtu)).toNat +
      ackOptionRoom p.options.timestamps p.options.sackPermitted ≤
        pmtu - fixedHeaderBytes p.incomingFlow.source)
    (hruns : Runs (fun e (c : Env × EngineOp) e' =>
        (∀ pmtu, c.2 ≠ .onPathMtuLowered p.incomingFlow.source pmtu) ∧ c.2.apply c.1 e = some e')
      (e.onPathMtuLowered p.incomingFlow.source pmtu) e')
    (env : Env) (nowMs pcbBudget maxSegments : ℕ) {response : TcpResponse}
    (hbuilt : .built response ∈
      (seen (e'.pumpSendPaths env nowMs pcbBudget maxSegments).1.history p.flowId).drop
        (seen e'.history p.flowId).length) :
    ∃ length, buildTcpControlPacket response env.slotCapacity = .ok length ∧ length ≤ pmtu := by
  have hinv := hruns.invariant (P := fun e' => TcpHandshakeEngine.Knows (fun q _ =>
      q.flowId = p.flowId → Pcb.Lowered p
        (p.loweredMss e.config (pathMss p.incomingFlow.source pmtu)) q) e' ∧
      p.flowId < e'.nextFlowId) (h.lowered hpmtu hp hstate) (by
    rintro e₁ ⟨env, op⟩ e₂ ⟨hknows, hid⟩ ⟨hop, hcall⟩
    obtain ⟨hknows', -, hnext⟩ := hknows.call (K := fun _ => True) (fun _ _ => trivial)
      (Pcb.kept_lowered hid hop) hcall
    exact ⟨hknows', lt_of_lt_of_le hid hnext⟩)
  obtain ⟨q, hq, send, hid, hs, rfl, hok⟩ :=
    ((TcpHandshakeEngine.pumpSendPaths_walks env e' nowMs pcbBudget maxSegments).builds
      (List.Subset.refl _)).observed hbuilt
  have hlowered := hinv.1.each q hq hid
  obtain ⟨hprobes, hmss⟩ := hlowered.send send hs
  obtain ⟨length, hlength, hle⟩ := q.length_dataSegment_le _ nowMs hok
  refine ⟨length, hlength, ?_⟩
  have hpayload := (nextSegment_sized hprobes (q.scaledPeerWindow q.peerWindow) nowMs).payload
  rw [hlowered.flow, hlowered.timestamps, hlowered.sackPermitted] at hle
  rw [hmss] at hpayload
  -- the segment size is not zero, so it is at least the byte of a probe
  have hpos : 0 < (p.loweredMss e.config (pathMss p.incomingFlow.source pmtu)).toNat :=
    Nat.pos_of_ne_zero fun hzero => h.loweredMss_ne_zero hp hpmtu (UInt16.toNat_inj.1 hzero)
  rw [max_eq_right hpos] at hpayload
  omega

end

/-- A path of 60 bytes, and data for more than one segment. -/
theorem packets_fit_lowered_path_plain :
    ∃ (e : TcpHandshakeEngine AimdController) (p : Pcb AimdController) (response : TcpResponse),
      e.Reachable (fun _ _ => True) ∧ p ∈ e.pcbs ∧
      .built response ∈ (seen ((e.onPathMtuLowered p.incomingFlow.source 60).pumpSendPaths
        {} 0 8 8).1.history p.flowId).drop
          (seen (e.onPathMtuLowered p.incomingFlow.source 60).history p.flowId).length ∧
      ∃ length, buildTcpControlPacket response 2048 = .ok length ∧ length ≤ 60 := by
  obtain ⟨e, hreach, p, hp, hpmtu, hstate, hroom, x, hmem, hx⟩ :=
    exists_reached (P := fun e p => fixedHeaderBytes p.incomingFlow.source < 60 ∧ p.state = .established ∧
      (p.loweredMss e.config (pathMss p.incomingFlow.source 60)).toNat +
        ackOptionRoom p.options.timestamps p.options.sackPermitted ≤
          60 - fixedHeaderBytes p.incomingFlow.source ∧
      ∃ x ∈ (seen ((e.onPathMtuLowered p.incomingFlow.source 60).pumpSendPaths {} 0 8 8).1.history
        p.flowId).drop (seen (e.onPathMtuLowered p.incomingFlow.source 60).history p.flowId).length,
        x.response.isSome = true)
    { receiveWindow := 16 } (peerOpens 1 ++ [(({} : Env), .enqueueSendData 1 (.replicate 30 7))]) (by decide +kernel)
  cases x with
  | built response =>
    exact ⟨e, p, response, hreach, hp, hmem, packets_fit_lowered_path hreach hp hpmtu
      (by rw [hstate]; decide) hroom .refl {} 0 8 8 hmem⟩
  | _ => cases hx

/-- A connection with timestamps, and a path of 60 bytes: a packet of 72 bytes is built. -/
theorem packet_exceeds_lowered_path :
    ∃ (e : TcpHandshakeEngine AimdController) (p : Pcb AimdController) (response : TcpResponse),
      e.Reachable (fun _ _ => True) ∧ p ∈ e.pcbs ∧ p.state = .established ∧
      fixedHeaderBytes p.incomingFlow.source = 40 ∧
      .built response ∈ (seen ((e.onPathMtuLowered p.incomingFlow.source 60).pumpSendPaths
        {} 0 8 8).1.history p.flowId).drop
          (seen (e.onPathMtuLowered p.incomingFlow.source 60).history p.flowId).length ∧
      buildTcpControlPacket response 2048 = .ok 72 := by
  obtain ⟨e, hreach, p, hp, hstate, hheader, hany⟩ :=
    exists_reached (P := fun e p => p.state = .established ∧ fixedHeaderBytes p.incomingFlow.source = 40 ∧
      ((seen ((e.onPathMtuLowered p.incomingFlow.source 60).pumpSendPaths {} 0 8 8).1.history
        p.flowId).drop
          (seen (e.onPathMtuLowered p.incomingFlow.source 60).history p.flowId).length).any (fun x =>
        x.response.any fun response => match buildTcpControlPacket response 2048 with
          | .ok length => length = 72
          | .error _ => false) = true)
    { receiveWindow := 16 } [peerSends 1 TcpFlag.syn 100 0 [] 1000 [1, 1, 8, 10, 0, 0, 0, 1, 0, 0, 0, 0],
      peerSends 1 TcpFlag.ack 101 1 [] 1000 [1, 1, 8, 10, 0, 0, 0, 2, 0, 0, 0, 0],
      ({}, .enqueueSendData 1 (.replicate 30 7))] (by decide +kernel)
  obtain ⟨x, hmem, hx⟩ := any_eq_true.1 hany
  cases x with
  | built response =>
    refine ⟨e, p, response, hreach, hp, hstate, hheader, hmem, ?_⟩
    rw [Observed.response, Option.any_some] at hx
    split at hx
    case h_1 length hlength => rw [hlength, of_decide_eq_true hx]
    case h_2 => cases hx
  | _ => cases hx

end Netstack2
