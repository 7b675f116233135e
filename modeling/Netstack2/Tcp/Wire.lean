import Netstack2.Tcp.Input
import Netstack2.Tcp.Output

/-!
# TCP packets on the wire

The packets that are built are understood by the parsers: a packet that fits its length
field is read back with the flow, the numbers, the flags, the codepoint, the payload and
the options of the segment (`tcpControlPacket_round_trip`).

The options are read piece by piece, each as it was written (`Reads`).
-/

namespace Netstack2

open List

variable {response : TcpResponse} {options : Bytes}

/-! ## The options of a SYN -/

section SynOptions

variable {options options' : TcpSynOptions}

theorem reads_nop (options : TcpSynOptions) : Reads parseSynOptionsFrom [1] options options := by
  intro fuel rest hfuel
  cases fuel with
  | zero => exact absurd hfuel (by simp)
  | succ fuel => exact ⟨fuel, Nat.le_of_succ_le_succ hfuel, rfl⟩

/-- One option, with its kind and its length. -/
theorem reads_synOption {kind length : UInt8} (hend : kind ≠ 0) (hnop : kind ≠ 1) {body : Bytes}
    (hlen : length.toNat = body.length + 2) (h : parseSynOption kind body options = .ok options') :
    Reads parseSynOptionsFrom (kind :: length :: body) options options' := by
  intro fuel rest hfuel
  cases fuel with
  | zero => exact absurd hfuel (by simp)
  | succ fuel =>
    refine ⟨fuel, by simp at hfuel; omega, ?_⟩
    rw [cons_append, cons_append, parseSynOptionsFrom, if_neg hend, if_neg hnop]
    rw [hlen, if_neg (by omega), if_neg (by simp), Nat.add_sub_cancel, take_left, h, drop_left]

/-- Padding ends the options. -/
theorem parseSynOptionsFrom_padding (fuel count : ℕ) (options : TcpSynOptions) :
    parseSynOptionsFrom fuel (.replicate count 0) options = .ok options := by
  cases fuel with
  | zero => rfl
  | succ =>
    cases count with
    | zero | succ => rfl

theorem reads_mss (mss : UInt16) (hmss : mss ≠ 0) (h : options.mssPresent = false) :
    Reads parseSynOptionsFrom ([2, 4] ++ bigEndian 2 mss.toNat) options
      { options with mssPresent := true, mss := mss } := by
  have hread : read16 (bigEndian 2 mss.toNat) = mss := by
    rw [← append_nil (bigEndian 2 mss.toNat), read16_bigEndian]
  have hparse : parseSynOption 2 (bigEndian 2 mss.toNat) options =
      .ok { options with mssPresent := true, mss := mss } := by
    rw [parseSynOption, if_pos rfl, if_neg (not_not.2 (length_bigEndian ..)),
      if_neg (by rw [h]; decide), hread, if_neg hmss]
  exact reads_synOption (by decide) (by decide) rfl hparse

theorem reads_sackPermitted (h : options.sackPermitted = false) :
    Reads parseSynOptionsFrom [4, 2] options { options with sackPermitted := true } := by
  refine reads_synOption (by decide) (by decide) rfl ?_
  rw [parseSynOption, if_neg (by decide), if_neg (by decide), if_pos rfl, if_neg (by decide),
    if_neg (by rw [h]; decide)]

/-- The timestamp, with the two bytes that align it. -/
theorem reads_timestampBytes (value echo : UInt32) (h : options.timestampPresent = false) :
    Reads parseSynOptionsFrom (timestampBytes value echo) options
      { options with timestampPresent := true, timestampValue := value, timestampEcho := echo } := by
  have hbody : (bigEndian 4 value.toNat ++ bigEndian 4 echo.toNat).length = 8 := by simp
  have hdrop : (bigEndian 4 value.toNat ++ bigEndian 4 echo.toNat).drop 4 =
      bigEndian 4 echo.toNat ++ [] := by
    rw [drop_left' (length_bigEndian ..), append_nil]
  have hparse : parseSynOption 8 (bigEndian 4 value.toNat ++ bigEndian 4 echo.toNat) options =
      .ok { options with
        timestampPresent := true, timestampValue := value, timestampEcho := echo } := by
    rw [parseSynOption, if_neg (by decide), if_neg (by decide), if_neg (by decide), if_pos rfl,
      if_neg (not_not.2 hbody), if_neg (by rw [h]; decide), read32_bigEndian, hdrop,
      read32_bigEndian]
  exact (reads_nop options).append ((reads_nop options).append
    (reads_synOption (by decide) (by decide) rfl hparse))

theorem reads_windowScale {scale : UInt8} (hscale : scale ≤ 14)
    (h : options.windowScalePresent = false) :
    Reads parseSynOptionsFrom [1, 3, 3, if scale > 14 then 14 else scale] options
      { options with windowScalePresent := true, windowScale := scale } := by
  have hle : ¬scale > 14 := UInt8.not_lt.2 hscale
  rw [if_neg hle]
  have hparse : parseSynOption 3 [scale] options =
      .ok { options with windowScalePresent := true, windowScale := scale } := by
    rw [parseSynOption, if_neg (by decide), if_pos rfl,
      if_neg (not_not.2 length_singleton), if_neg (by rw [h]; decide)]
    dsimp only [headD]
    rw [if_neg hle]
  exact (reads_nop options).append (reads_synOption (by decide) (by decide) rfl hparse)

/-- What the options say; the values of options that are not there do not count. -/
def TcpSynOptions.present (options : TcpSynOptions) : TcpSynOptions where
  mssPresent := options.mssPresent
  mss := if options.mssPresent then options.mss else 0
  windowScalePresent := options.windowScalePresent
  windowScale := if options.windowScalePresent then options.windowScale else 0
  sackPermitted := options.sackPermitted
  timestampPresent := options.timestampPresent
  timestampValue := if options.timestampPresent then options.timestampValue else 0
  timestampEcho := if options.timestampPresent then options.timestampEcho else 0

theorem parseTcpSynOptions_of_reads {l padded : Bytes} (h : padOptions l = some padded)
    (hreads : Reads parseSynOptionsFrom l {} options) : parseTcpSynOptions padded = .ok options := by
  obtain ⟨rfl, hle⟩ := padOptions_eq_some h
  obtain ⟨_, -, heq⟩ := hreads _ (.replicate ((4 - l.length % 4) % 4) 0) (le_refl _)
  rw [parseTcpSynOptions, if_neg (Nat.not_lt.2 hle), heq, parseSynOptionsFrom_padding]

/-- The options of a SYN are read back. -/
theorem parseTcpSynOptions_serializeSynOptions (hmss : options.mssPresent → options.mss ≠ 0)
    (hscale : options.windowScale ≤ 14) {padded : Bytes}
    (h : serializeSynOptions options = some padded) :
    parseTcpSynOptions padded = .ok options.present := by
  refine parseTcpSynOptions_of_reads h ?_
  have hreads :=
    (((Reads.ite (s := {}) fun hp => reads_mss options.mss (hmss hp) rfl).append
      (.ite (p := options.sackPermitted) fun _ => reads_sackPermitted (by split <;> rfl))).append
      (.ite (p := options.timestampPresent) fun _ => reads_timestampBytes options.timestampValue
        options.timestampEcho (by split <;> split <;> rfl))).append
      (.ite (p := options.windowScalePresent) fun _ => reads_windowScale hscale
        (by split <;> split <;> split <;> rfl))
  convert hreads using 1
  obtain ⟨_ | _, _, _ | _, _, _ | _, _ | _, _, _⟩ := options <;> rfl

end SynOptions

/-! ## The options of an acknowledgment -/

section AckOptions

variable {blocks : List TcpSackBlock}

theorem sackReads_nop (blocks : List TcpSackBlock) :
    Reads parseSackBlocksFrom [1] blocks blocks := by
  intro fuel rest hfuel
  cases fuel with
  | zero => exact absurd hfuel (by simp)
  | succ fuel => exact ⟨fuel, Nat.le_of_succ_le_succ hfuel, rfl⟩

/-- One option: the blocks of a selective acknowledgment are added, another option is
    passed over. -/
theorem sackReads_option {kind length : UInt8} (hend : kind ≠ 0) (hnop : kind ≠ 1) {body : Bytes}
    (hlen : length.toNat = body.length + 2) (hsack : kind = 5 → body.length % 8 = 0) :
    Reads parseSackBlocksFrom (kind :: length :: body) blocks
      (blocks ++ if kind = 5 then sackBlocksOf (4 - blocks.length) body else []) := by
  intro fuel rest hfuel
  cases fuel with
  | zero => exact absurd hfuel (by simp)
  | succ fuel =>
    refine ⟨fuel, by simp at hfuel; omega, ?_⟩
    rw [cons_append, cons_append, parseSackBlocksFrom, if_neg hend, if_neg hnop]
    rw [hlen, if_neg (by simp), Nat.add_sub_cancel,
      if_neg fun hbad => hbad.2 (hsack hbad.1), take_left, drop_left]

theorem parseSackBlocksFrom_padding (fuel count : ℕ) (blocks : List TcpSackBlock) :
    parseSackBlocksFrom fuel (.replicate count 0) blocks = blocks := by
  cases fuel with
  | zero => rfl
  | succ =>
    cases count with
    | zero | succ => rfl

/-- Blocks are read back, up to the limit. -/
theorem sackBlocksOf_flatMap (limit : ℕ) (blocks : List TcpSackBlock) :
    sackBlocksOf limit (blocks.flatMap fun block => bigEndian 4 block.leftEdge.toNat ++
      bigEndian 4 block.rightEdge.toNat) = blocks.take limit := by
  induction limit generalizing blocks with
  | zero => rfl
  | succ _ ih =>
    cases blocks with
    | nil => rfl
    | cons =>
      rw [sackBlocksOf, flatMap_cons, if_neg (by simp; omega), append_assoc, read32_bigEndian,
        drop_left' (length_bigEndian ..), read32_bigEndian, ← append_assoc,
        drop_left' (by simp), ih, take_succ_cons]

theorem sackReads_timestampBytes (value echo : UInt32) :
    Reads parseSackBlocksFrom (timestampBytes value echo) blocks blocks := by
  have hreads : Reads parseSackBlocksFrom
      (8 :: 10 :: (bigEndian 4 value.toNat ++ bigEndian 4 echo.toNat)) blocks (blocks ++ []) :=
    sackReads_option (by decide) (by decide) rfl fun h => absurd h (by decide)
  rw [append_nil] at hreads
  exact (sackReads_nop blocks).append ((sackReads_nop blocks).append hreads)

variable {response : TcpResponse} {padded : Bytes} {blocks : List TcpSackBlock}

/-- The length of the option with all blocks. -/
theorem toNat_sackLength (hle : blocks.length ≤ 4) :
    (UInt8.ofNat (2 + blocks.length * 8)).toNat = (blocks.flatMap fun block =>
      bigEndian 4 block.leftEdge.toNat ++ bigEndian 4 block.rightEdge.toNat).length + 2 := by
  rw [length_sackBlockBytes, UInt8.toNat_ofNat']
  omega

theorem length_ackBlocks_le (response : TcpResponse) :
    (response.sackBlocks.take (if response.timestampPresent then 3 else 4)).length ≤ 4 := by
  refine (length_take_le ..).trans ?_
  split <;> decide

/-- For the options of a SYN, selective acknowledgments are passed over. -/
theorem reads_sackOption {options : TcpSynOptions} (hle : blocks.length ≤ 4) :
    Reads parseSynOptionsFrom ([5, UInt8.ofNat (2 + blocks.length * 8)] ++ blocks.flatMap fun block =>
      bigEndian 4 block.leftEdge.toNat ++ bigEndian 4 block.rightEdge.toNat) options options :=
  reads_synOption (by decide) (by decide) (toNat_sackLength hle) rfl

theorem sackReads_sackOption (hle : blocks.length ≤ 4) :
    Reads parseSackBlocksFrom ([5, UInt8.ofNat (2 + blocks.length * 8)] ++ blocks.flatMap fun block =>
      bigEndian 4 block.leftEdge.toNat ++ bigEndian 4 block.rightEdge.toNat) [] blocks := by
  have hreads : Reads parseSackBlocksFrom ([5, UInt8.ofNat (2 + blocks.length * 8)] ++
      blocks.flatMap fun block =>
        bigEndian 4 block.leftEdge.toNat ++ bigEndian 4 block.rightEdge.toNat) [] _ :=
    sackReads_option (by decide) (by decide) (toNat_sackLength hle) fun _ => by
      rw [append_eq, nil_append, length_sackBlockBytes, Nat.mul_mod_left]
  rw [append_eq, nil_append, if_pos rfl, nil_append, sackBlocksOf_flatMap,
    length_nil, Nat.sub_zero, take_of_length_le hle] at hreads
  exact hreads

/-- The timestamp of an acknowledgment is read back, and nothing else for a SYN. -/
theorem parseTcpSynOptions_serializeAckOptions (h : serializeAckOptions response = some padded) :
    parseTcpSynOptions padded = .ok {
      timestampPresent := response.timestampPresent
      timestampValue := if response.timestampPresent then response.timestampValue else 0
      timestampEcho := if response.timestampPresent then response.timestampEcho else 0 } := by
  have hreads := (Reads.ite (s := {}) (p := response.timestampPresent) fun _ =>
    reads_timestampBytes response.timestampValue response.timestampEcho rfl).append
    (Reads.ite fun _ : response.sackBlocks.take (if response.timestampPresent then 3 else 4) ≠ [] =>
      reads_sackOption (length_ackBlocks_le response))
  refine parseTcpSynOptions_of_reads h ?_
  convert hreads using 1
  rw [ite_self]
  cases response.timestampPresent <;> rfl

/-- The first blocks of an acknowledgment are read back. -/
theorem parseTcpSackBlocks_serializeAckOptions (h : serializeAckOptions response = some padded) :
    parseTcpSackBlocks padded =
      response.sackBlocks.take (if response.timestampPresent then 3 else 4) := by
  have htimestamp := Reads.ite (s := []) (p := response.timestampPresent) fun _ =>
    sackReads_timestampBytes response.timestampValue response.timestampEcho
  rw [ite_self] at htimestamp
  have hreads := htimestamp.append
    (Reads.ite fun _ : response.sackBlocks.take (if response.timestampPresent then 3 else 4) ≠ [] =>
      sackReads_sackOption (length_ackBlocks_le response))
  obtain ⟨rfl, -⟩ := padOptions_eq_some h
  obtain ⟨_, -, heq⟩ := hreads _ (.replicate _ 0) (le_refl _)
  rw [parseTcpSackBlocks, heq, parseSackBlocksFrom_padding]
  exact ite_eq_left_iff.2 fun hnone => (not_not.1 hnone).symm

end AckOptions

/-! ## The segment -/

/-- The options of every segment fit, in whole words. -/
theorem exists_serializeOptions (response : TcpResponse) : ∃ options,
    serializeOptions response = some options ∧ options.length % 4 = 0 ∧ options.length ≤ 40 := by
  have hpad : ∀ l : Bytes, l.length ≤ 40 →
      ∃ options, padOptions l = some options ∧ options.length % 4 = 0 ∧ options.length ≤ 40 := by
    intro l hl
    have hlen : (l ++ List.replicate ((4 - l.length % 4) % 4) (0 : UInt8)).length ≤ 40 := by
      rw [length_append, length_replicate]
      omega
    have hsome : padOptions l = some (l ++ .replicate ((4 - l.length % 4) % 4) 0) :=
      if_neg (Nat.not_lt.2 hlen)
    exact ⟨_, hsome, length_padOptions hsome ▸ Nat.mul_mod_left .., hlen⟩
  rw [serializeOptions]
  split
  · -- at most 22 bytes
    refine hpad _ ?_
    simp only [length_append, apply_ite List.length, length_timestampBytes, length_bigEndian,
      length_cons, length_nil]
    repeat' split
    all_goals decide
  · split
    · -- at most 38 bytes
      refine hpad _ ?_
      have hle : (response.sackBlocks.take (if response.timestampPresent then 3 else 4)).length ≤
        if response.timestampPresent then 3 else 4 := length_take_le ..
      generalize response.sackBlocks.take (if response.timestampPresent then 3 else 4) = blocks at *
      simp only [length_append, apply_ite List.length, length_timestampBytes,
        length_sackBlockBytes, length_cons, length_nil]
      cases htimestamp : response.timestampPresent
      all_goals
        simp only [htimestamp, Bool.false_eq_true, if_true, if_false] at hle ⊢
        split <;> omega
    · exact ⟨[], rfl, rfl, Nat.zero_le _⟩

section Segment

variable {response : TcpResponse} {options : Bytes} {checksum : UInt16}

theorem length_tcpSegment : (tcpSegment response options checksum).length =
    20 + options.length + response.payload.length := by
  simp only [tcpSegment, length_append, length_bigEndian, length_cons, length_nil]

/-- The checksum is behind six other fields. -/
theorem exists_tcpSegment (response : TcpResponse) (options : Bytes) :
    ∃ front : Bytes, front.length = 16 ∧ ∀ checksum, tcpSegment response options checksum =
      front ++ (bigEndian 2 checksum.toNat ++ ([0, 0] ++ (options ++ response.payload))) := by
  refine ⟨bigEndian 2 response.flow.sourcePort.toNat ++
    bigEndian 2 response.flow.destinationPort.toNat ++ bigEndian 4 response.sequence.toNat ++
    bigEndian 4 response.acknowledgment.toNat ++
    [UInt8.ofNat ((20 + options.length) / 4 * 16), response.flags] ++
    bigEndian 2 response.window.toNat, ?_, ?_⟩
  · simp only [length_append, length_bigEndian, length_cons, length_nil]
  · intro checksum
    simp only [tcpSegment, append_assoc]

theorem write16_tcpSegment (value : UInt16) :
    write16 (tcpSegment response options 0) 16 value = tcpSegment response options value := by
  obtain ⟨_, hlen, heq⟩ := exists_tcpSegment response options
  rw [heq, heq, write16_append hlen]

/-- A segment whose checksum is right is read back. -/
theorem parseTcpSegment_tcpSegment (hprotocol : response.flow.protocol = 6)
    (hfamily : response.flow.source.family = response.flow.destination.family)
    (hword : options.length % 4 = 0) (hoptions : options.length ≤ 40)
    (hlen : 20 + options.length + response.payload.length ≤ 65535)
    (hchecksum : internetChecksum (tcpSegment response options checksum)
      (pseudoHeaderSeed response.flow.source response.flow.destination 6
        (20 + options.length + response.payload.length)) = 0) (ecn : UInt8) :
    parseTcpSegment response.flow.source response.flow.destination
        (tcpSegment response options checksum) ecn = .ok {
      flow := response.flow
      sequence := response.sequence
      acknowledgment := response.acknowledgment
      flags := response.flags
      window := response.window
      ipEcn := ecn &&& 0x03
      options := options
      payload := response.payload } := by
  have hlength : (tcpSegment response options checksum).length =
    20 + options.length + response.payload.length := length_tcpSegment
  have hstart : tcpSegment response options checksum =
      bigEndian 2 response.flow.sourcePort.toNat ++ (bigEndian 2 response.flow.destinationPort.toNat
        ++ (bigEndian 4 response.sequence.toNat ++ (bigEndian 4 response.acknowledgment.toNat ++
          ([UInt8.ofNat ((20 + options.length) / 4 * 16), response.flags] ++
            (bigEndian 2 response.window.toNat ++ (bigEndian 2 checksum.toNat ++ ([0, 0] ++
              (options ++ response.payload)))))))) := by
    simp only [tcpSegment, append_assoc]
  generalize tcpSegment response options checksum = data at *
  -- what is left from each field on
  have hbehind : ∀ {n k : ℕ} {field rest : Bytes}, data.drop n = field ++ rest →
      field.length = k → data.drop (n + k) = rest := by
    intro n k field rest hfield hk
    rw [← drop_drop, hfield, drop_left' hk]
  have hport : data.drop 2 = _ := hbehind (n := 0) hstart (length_bigEndian ..)
  have hsequence : data.drop 4 = _ := hbehind hport (length_bigEndian ..)
  have hack : data.drop 8 = _ := hbehind hsequence (length_bigEndian ..)
  have hbyte : data.drop 12 = _ := hbehind hack (length_bigEndian ..)
  have hwindow : data.drop 14 = _ := hbehind hbyte rfl
  have hsum : data.drop 16 = _ := hbehind hwindow (length_bigEndian ..)
  have hurgent : data.drop 18 = _ := hbehind hsum (length_bigEndian ..)
  have hfront : data.drop 20 = _ := hbehind hurgent rfl
  have hpayload : data.drop (20 + options.length) = response.payload := hbehind hfront rfl
  have hoffset : (byteAt data 12 >>> 4).toNat * 4 = 20 + options.length := by
    rw [← add_zero 12, ← byteAt_drop, hbyte, cons_append, byteAt_cons_zero,
      UInt8.toNat_shiftRight, UInt8.toNat_ofNat', Nat.shiftRight_eq_div_pow]
    simp only [UInt8.reduceToNat, Nat.reduceMod, Nat.reducePow]
    omega
  have hflags : byteAt data 13 = response.flags := by
    rw [show 13 = 12 + 1 from rfl, ← byteAt_drop, hbyte, cons_append, byteAt_cons_succ,
      cons_append, byteAt_cons_zero]
  rw [parseTcpSegment, if_neg (not_not.2 hfamily), if_neg (by omega), if_neg (by omega)]
  rw [hoffset, if_neg (by omega), hlength, if_neg (not_not.2 hchecksum), Nat.add_sub_cancel_left,
    hport, hsequence, hack, hwindow, hflags, hfront, hpayload, hstart, take_left,
    read16_bigEndian, read16_bigEndian, read32_bigEndian, read32_bigEndian, read16_bigEndian,
    ← hprotocol]

end Segment

/-! ## The packet -/

/-- The segment of a packet, with its checksum, is found right. -/
theorem internetChecksum_tcpSegment {seed : UInt32}
    (hlen : 20 + options.length + response.payload.length ≤ 65535) (hseed : seed.toNat < 2 ^ 21) :
    internetChecksum (tcpSegment response options
      (internetChecksum (tcpSegment response options 0) seed)) seed = 0 := by
  have hlength : (tcpSegment response options 0).length =
    20 + options.length + response.payload.length := length_tcpSegment
  rw [← write16_tcpSegment]
  exact internetChecksum_write16 rfl (by omega) (write16_tcpSegment 0).symm (by omega) hseed

/-- The codepoints. -/
theorem ecn_cases {ecn : UInt8} (h : ecn ≤ 3) : ecn = 0 ∨ ecn = 1 ∨ ecn = 2 ∨ ecn = 3 := by
  have hle : ecn.toNat ≤ 3 := UInt8.le_iff_toNat_le.1 h
  simp only [← UInt8.toNat_inj, UInt8.reduceToNat]
  omega

theorem and_three_of_le {ecn : UInt8} (h : ecn ≤ 3) : ecn &&& 0x03 = ecn := by
  rcases ecn_cases h with rfl | rfl | rfl | rfl <;> rfl

theorem shiftRight_shiftLeft_of_le {ecn : UInt8} (h : ecn ≤ 3) : ecn <<< 4 >>> 4 = ecn := by
  rcases ecn_cases h with rfl | rfl | rfl | rfl <;> rfl

/-- A packet that fits its length field is read back. -/
theorem parseIpTcpPacket_tcpPacket (hprotocol : response.flow.protocol = 6)
    (hfamily : response.flow.source.family = response.flow.destination.family)
    (hecn : response.ipEcn ≤ 3) (hword : options.length % 4 = 0) (hoptions : options.length ≤ 40)
    (hlen : (if response.flow.source.isIpv4 then 20 else 40) +
      (20 + options.length + response.payload.length) ≤ 65535) (ipv4Id : UInt16) (hopLimit : UInt8) :
    (parseIpTcpPacket (tcpPacket response options ipv4Id hopLimit)).segment = some {
      flow := response.flow
      sequence := response.sequence
      acknowledgment := response.acknowledgment
      flags := response.flags
      window := response.window
      ipEcn := response.ipEcn
      options := options
      payload := response.payload } := by
  have hmask : response.ipEcn &&& 0x03 = response.ipEcn := and_three_of_le hecn
  have hlength : ∀ checksum, (tcpSegment response options checksum).length =
    20 + options.length + response.payload.length := fun _ => length_tcpSegment
  have hparse := fun hsmall => parseTcpSegment_tcpSegment hprotocol hfamily hword hoptions hsmall
    (internetChecksum_tcpSegment hsmall (pseudoHeaderSeed_lt response.flow.source
      response.flow.destination 6 (20 + options.length + response.payload.length))) response.ipEcn
  rw [tcpPacket, tcpIpHeader, write16_tcpSegment]
  rw [hlength]
  generalize internetChecksum (tcpSegment response options 0) (pseudoHeaderSeed
    response.flow.source response.flow.destination 6
    (20 + options.length + response.payload.length)) = checksum at *
  cases hsource : response.flow.source with
  | ipv4 =>
    cases hdestination : response.flow.destination with
    | ipv6 =>
      rw [hsource, hdestination] at hfamily
      cases hfamily
    | ipv4 =>
      rw [hsource, IpAddress.isIpv4, if_pos rfl] at hlen
      have hsegment := hparse (by omega)
      rw [hmask, hsource, hdestination] at hsegment
      have htotal : (UInt16.ofNat (20 + (20 + options.length + response.payload.length))).toNat =
          20 + (tcpSegment response options checksum).length := by
        rw [UInt16.toNat_ofNat', hlength, Nat.mod_eq_of_lt (by omega)]
      dsimp only
      rw [write16_ipv4Header]
      refine parseIpTcpPacket_eq_some_iff.2 ⟨_, ipView_ipv4Header htotal (.inl rfl), ?_⟩
      rw [hmask, hmask, internetChecksum_ipv4Header]
      exact ⟨rfl, rfl, rfl, hsegment⟩
  | ipv6 =>
    cases hdestination : response.flow.destination with
    | ipv4 =>
      rw [hsource, hdestination] at hfamily
      cases hfamily
    | ipv6 =>
      rw [hsource, IpAddress.isIpv4, if_neg (by decide)] at hlen
      have hsegment := hparse (by omega)
      rw [hmask, hsource, hdestination] at hsegment
      have htotal : (UInt16.ofNat (20 + options.length + response.payload.length)).toNat =
          (tcpSegment response options checksum).length := by
        rw [UInt16.toNat_ofNat', hlength, Nat.mod_eq_of_lt (by omega)]
      have hne : tcpSegment response options checksum ≠ [] :=
        ne_nil_of_length_pos (by rw [hlength]; omega)
      refine parseIpTcpPacket_eq_some_iff.2 ⟨_, ipView_ipv6Header htotal hne rfl (by decide), ?_⟩
      rw [hmask, shiftRight_shiftLeft_of_le hecn, hmask]
      exact ⟨rfl, rfl, rfl, hsegment⟩

/-- The length of the packet of a segment. -/
def TcpResponse.packetLength (response : TcpResponse) : ℕ :=
  (if response.flow.source.isIpv4 then 20 else 40) +
    (20 + ((serializeOptions response).getD []).length + response.payload.length)

/-- A packet that fits the buffer is built. -/
theorem tcpControlPacket_of_le {capacity : ℕ} (hprotocol : response.flow.protocol = 6)
    (hfamily : response.flow.source.family = response.flow.destination.family)
    (hoptions : serializeOptions response = some options)
    (hcapacity : response.packetLength ≤ capacity) (ipv4Id : UInt16) (hopLimit : UInt8) :
    tcpControlPacket response capacity ipv4Id hopLimit =
      .ok (tcpPacket response options ipv4Id hopLimit) := by
  rw [TcpResponse.packetLength, hoptions, Option.getD_some] at hcapacity
  rw [tcpControlPacket, buildTcpControlPacket, if_neg (not_not.2 hprotocol),
    if_neg (not_not.2 hfamily), hoptions]
  dsimp only
  rw [if_neg (Nat.not_lt.2 hcapacity)]
  rfl

/-- A packet that fits its buffer and its length field is built, and read back by the
    parsers as it was meant. -/
theorem tcpControlPacket_round_trip {capacity : ℕ} (hprotocol : response.flow.protocol = 6)
    (hfamily : response.flow.source.family = response.flow.destination.family)
    (hmss : response.synOptions.mssPresent = true → response.synOptions.mss ≠ 0)
    (hscale : response.synOptions.windowScale ≤ 14) (hecn : response.ipEcn ≤ 3)
    (hlen : response.packetLength ≤ 65535) (hcapacity : response.packetLength ≤ capacity)
    (ipv4Id : UInt16) (hopLimit : UInt8) :
    ∃ packet segment, tcpControlPacket response capacity ipv4Id hopLimit = .ok packet ∧
      (parseIpTcpPacket packet).error = none ∧ (parseIpTcpPacket packet).segment = some segment ∧
      segment.flow = response.flow ∧ segment.sequence = response.sequence ∧
      segment.acknowledgment = response.acknowledgment ∧ segment.flags = response.flags ∧
      segment.window = response.window ∧ segment.ipEcn = response.ipEcn ∧
      segment.payload = response.payload ∧
      (response.flags &&& TcpFlag.syn ≠ 0 →
        parseTcpSynOptions segment.options = .ok response.synOptions.present) ∧
      (response.flags &&& TcpFlag.syn = 0 → response.flags &&& TcpFlag.ack ≠ 0 →
        parseTcpSynOptions segment.options = .ok {
          timestampPresent := response.timestampPresent
          timestampValue := if response.timestampPresent then response.timestampValue else 0
          timestampEcho := if response.timestampPresent then response.timestampEcho else 0 } ∧
        parseTcpSackBlocks segment.options =
          response.sackBlocks.take (if response.timestampPresent then 3 else 4)) := by
  obtain ⟨_, hoptions, hword, hroom⟩ := exists_serializeOptions response
  have hbuilt := tcpControlPacket_of_le hprotocol hfamily hoptions hcapacity ipv4Id hopLimit
  rw [TcpResponse.packetLength, hoptions, Option.getD_some] at hlen
  have hsegment :=
    parseIpTcpPacket_tcpPacket hprotocol hfamily hecn hword hroom hlen ipv4Id hopLimit
  refine ⟨_, _, hbuilt, error_of_segment hsegment, hsegment, rfl, rfl, rfl, rfl, rfl, rfl, rfl, ?_, ?_⟩
  · intro hsyn
    rw [serializeOptions, if_pos hsyn] at hoptions
    exact parseTcpSynOptions_serializeSynOptions hmss hscale hoptions
  · intro hsyn hack
    rw [serializeOptions, if_neg (not_not.2 hsyn), if_pos hack] at hoptions
    exact ⟨parseTcpSynOptions_serializeAckOptions hoptions,
      parseTcpSackBlocks_serializeAckOptions hoptions⟩

/-- An answer to a SYN, with a segment size. -/
theorem tcpControlPacket_round_trip_syn :
    ∃ packet segment, tcpControlPacket {
        flow := ⟨.ipv4 #v[10, 0, 0, 1], .ipv4 #v[10, 0, 0, 2], 80, 1024, 6⟩
        flags := TcpFlag.syn ||| TcpFlag.ack
        synOptions := { mssPresent := true, mss := 1460 } } 60 = .ok packet ∧
      (parseIpTcpPacket packet).segment = some segment ∧
      parseTcpSynOptions segment.options = .ok { mssPresent := true, mss := 1460 } := by
  obtain ⟨packet, segment, hbuilt, -, hsegment, -, -, -, -, -, -, -, hsyn, -⟩ :=
    @tcpControlPacket_round_trip {
        flow := ⟨.ipv4 #v[10, 0, 0, 1], .ipv4 #v[10, 0, 0, 2], 80, 1024, 6⟩
        flags := TcpFlag.syn ||| TcpFlag.ack
        synOptions := { mssPresent := true, mss := 1460 } } 60
      rfl rfl (by decide) (by decide) (by decide) (by decide) (by decide) 0 64
  exact ⟨packet, segment, hbuilt, hsegment, hsyn (by decide)⟩

end Netstack2
