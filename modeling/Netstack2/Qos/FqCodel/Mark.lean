import Netstack2.Ip.Ipv4
import Netstack2.Ip.Ipv6
import Netstack2.Qos.FqCodel

/-!
# The congestion mark

A packet that can carry the mark (`EcnCapable`) gets it in two bits, which have different
places in the two families. The mark changes nothing else (`Marked`), but for the checksum
of an IPv4 header, which is computed anew where the header is there as a whole.

So both parsers read the same from a packet with and without the mark, apart from the bits
and the checksum, and find the checksum right (`markCe_marked`).
-/

namespace Netstack2

open List

/-- A packet that can carry a congestion mark: one with the codepoint ECT(0) or ECT(1), the
    two low bits of the traffic class, and a whole header. -/
def EcnCapable (data : Bytes) : Prop :=
  (byteAt data 0 >>> 4 = 4 ∧ 20 ≤ data.length ∧
    (byteAt data 1 &&& 0x03 = 1 ∨ byteAt data 1 &&& 0x03 = 2)) ∨
  (byteAt data 0 >>> 4 = 6 ∧ 40 ≤ data.length ∧
    ((byteAt data 1 >>> 4) &&& 0x03 = 1 ∨ (byteAt data 1 >>> 4) &&& 0x03 = 2))

/-- A packet that can carry the mark is marked. -/
theorem not_ecnCapable_of_markCe {data : Bytes} (h : markCe data = none) : ¬EcnCapable data := by
  rintro (⟨hversion, hlength, hecn⟩ | ⟨hversion, hlength, hecn⟩)
  · rw [markCe, if_neg (Nat.not_lt.2 hlength), if_pos hversion] at h
    dsimp only at h
    rw [if_neg (fun hne => hecn.elim hne.1 hne.2)] at h
    split at h <;> exact Option.some_ne_none _ h
  · have hfour : byteAt data 0 >>> 4 ≠ 4 := by
      rw [hversion]
      decide
    rw [markCe, if_neg (by omega), if_neg hfour, if_pos hversion,
      if_neg (Nat.not_lt.2 hlength)] at h
    rw [if_neg (fun hne => hecn.elim hne.1 hne.2)] at h
    exact Option.some_ne_none _ h

/-- The packet `marked` is `data` with the mark. -/
structure Marked (data marked : Bytes) : Prop where
  capable : EcnCapable data
  length : marked.length = data.length
  /-- Outside the second byte, only the checksum of an IPv4 header may change. -/
  same : ∀ i, i ≠ 1 → ¬(byteAt data 0 >>> 4 = 4 ∧ (i = 10 ∨ i = 11)) → marked[i]? = data[i]?
  /-- In the second byte, only the two bits change. -/
  bits : byteAt marked 1 = if byteAt data 0 >>> 4 = 4 then byteAt data 1 &&& 0xFC ||| 0x03
    else byteAt data 1 &&& 0xCF ||| 0x30
  ipv4 : ∀ ip, parseIpv4 data = .ok ip → ∃ checksum, parseIpv4 marked = .ok { ip with
    header := { ip.header with ecn := 3, headerChecksum := checksum }
    checksumOk := true }
  ipv6 : ∀ ip, parseIpv6 data = .ok ip → parseIpv6 marked = .ok { ip with
    header := { ip.header with trafficClass := ip.header.trafficClass &&& 0xFC ||| 0x03 } }

/-! ## IPv4 -/

/-- The mark in the traffic class of an IPv4 header. -/
theorem mark_bits (b : UInt8) :
    (b &&& 0xFC ||| 0x03) >>> 2 = b >>> 2 ∧ (b &&& 0xFC ||| 0x03) &&& 0x03 = 3 := by
  rw [← UInt8.toBitVec_inj, ← UInt8.toBitVec_inj]
  constructor
  all_goals
    ext i hi
    simp
    interval_cases i <;> simp

section Ipv4

variable {data marked : Bytes} (hlength : marked.length = data.length)
  (hsame : ∀ i, i ≠ 1 → i ≠ 10 → i ≠ 11 → marked[i]? = data[i]?)
  (hbits : byteAt marked 1 = byteAt data 1 &&& 0xFC ||| 0x03)

include hsame hbits in
theorem readIpv4Header_marked : readIpv4Header marked =
    { readIpv4Header data with ecn := 3, headerChecksum := read16 (marked.drop 10) } := by
  have hbyte (i : ℕ) (h : i ≠ 1 ∧ i ≠ 10 ∧ i ≠ 11) : byteAt marked i = byteAt data i :=
    byteAt_congr (hsame i h.1 h.2.1 h.2.2)
  have hword (i : ℕ) (h : 2 ≤ i ∧ i ≤ 8) : read16 (marked.drop i) = read16 (data.drop i) :=
    read16_congr (hsame _ (by omega) (by omega) (by omega))
      (hsame _ (by omega) (by omega) (by omega))
  have haddress (i : ℕ) (h : 12 ≤ i) : bytesAt 4 marked i = bytesAt 4 data i :=
    bytesAt_congr fun j hj => hsame j (by omega) (by omega) (by omega)
  rw [readIpv4Header, readIpv4Header, hbits, (mark_bits _).1, (mark_bits _).2, hbyte 0 (by decide),
    hbyte 8 (by decide), hbyte 9 (by decide), hword 2 (by decide), hword 4 (by decide),
    hword 6 (by decide), haddress 12 (by decide), haddress 16 (by decide)]

include hlength hsame hbits in
theorem parseIpv4_marked
    (hsum : 20 ≤ (readIpv4Header data).headerLength →
      (readIpv4Header data).headerLength ≤ data.length →
      internetChecksum (marked.take (readIpv4Header data).headerLength) = 0)
    {ip : Ipv4ParseResult} (h : parseIpv4 data = .ok ip) :
    parseIpv4 marked = .ok { ip with
      header := { ip.header with ecn := 3, headerChecksum := read16 (marked.drop 10) }
      checksumOk := true } := by
  have hversion : byteAt marked 0 = byteAt data 0 :=
    byteAt_congr (hsame 0 (by decide) (by decide) (by decide))
  rw [parseIpv4] at h ⊢
  rw [hlength, hversion, readIpv4Header_marked hsame hbits]
  dsimp only at h ⊢
  split_ifs at h with h₁ h₂ h₃ h₄ h₅ h₆
  cases h
  have hheader : 20 ≤ (readIpv4Header data).headerLength :=
    Nat.mul_le_mul_right 4 (UInt8.le_iff_toNat_le.1 (UInt8.not_lt.1 h₃))
  have hdrop : marked.drop (readIpv4Header data).headerLength =
      data.drop (readIpv4Header data).headerLength :=
    drop_congr fun i hi => hsame i (by omega) (by omega) (by omega)
  rw [if_neg h₁, if_neg h₂, if_neg h₃, if_neg h₄, if_neg h₅, if_neg h₆, hdrop,
    hsum hheader (Nat.not_lt.1 h₄)]
  rfl

include hlength hsame hbits in
theorem Marked.of_ipv4 (hversion : byteAt data 0 >>> 4 = 4) (hcapable : EcnCapable data)
    (hsum : 20 ≤ (readIpv4Header data).headerLength →
      (readIpv4Header data).headerLength ≤ data.length →
      internetChecksum (marked.take (readIpv4Header data).headerLength) = 0) :
    Marked data marked where
  capable := hcapable
  length := hlength
  same i hi hchecksum := by
    have hne := not_and.1 hchecksum hversion
    exact hsame i hi (mt .inl hne) (mt .inr hne)
  bits := by rw [if_pos hversion, hbits]
  ipv4 _ h := ⟨_, parseIpv4_marked hlength hsame hbits hsum h⟩
  ipv6 _ h := by
    obtain ⟨⟨-, hsix, -⟩, -⟩ := parseIpv6_eq_ok.1 h
    simp [hversion] at hsix

end Ipv4

/-! ## IPv6 -/

/-- The mark in the second byte of an IPv6 header, whose upper half is the lower half of the
    traffic class. -/
theorem mark_bits_ipv6 (a b : UInt8) :
    a <<< 4 ||| (b &&& 0xCF ||| 0x30) >>> 4 = (a <<< 4 ||| b >>> 4) &&& 0xFC ||| 0x03 ∧
      (b &&& 0xCF ||| 0x30) &&& 0x0f = b &&& 0x0f := by
  rw [← UInt8.toBitVec_inj, ← UInt8.toBitVec_inj]
  constructor
  all_goals
    ext i hi
    simp
    interval_cases i <;> simp

/-- Of the fixed header, the parser of a body reads only the length. -/
theorem parseExtHeaderBody_header (nh : UInt8) (body : Bytes) (result : Ipv6ParseResult)
    {header : Ipv6Header} (h : header.payloadLength = result.header.payloadLength) :
    parseExtHeaderBody nh body { result with header := header } =
      (parseExtHeaderBody nh body result).map ({ · with header := header }) := by
  rw [parseExtHeaderBody, parseExtHeaderBody]
  rw [h]
  cases parseIpv6Options body with
  | none => split_ifs <;> rfl
  | some options =>
    dsimp only
    cases findJumboPayload options <;> split_ifs <;> rfl

theorem header_of_parseExtHeaderBody {nh : UInt8} {body : Bytes} {result result' : Ipv6ParseResult}
    (h : parseExtHeaderBody nh body result = .ok result') : result'.header = result.header := by
  have hsame := parseExtHeaderBody_header nh body result rfl
  rw [h, Except.map, Except.ok.injEq] at hsame
  rw [hsame]

/-- After the checks of a header, its body is parsed and the walk goes on. -/
theorem parseExtHeaderBody_next (nh : UInt8) (body : Bytes) (result : Ipv6ParseResult)
    {header : Ipv6Header} (h : header.payloadLength = result.header.payloadLength)
    {next next' : Ipv6ParseResult → Except Ipv6ParseError Ipv6ParseResult}
    (hnext : ∀ result : Ipv6ParseResult, header.payloadLength = result.header.payloadLength →
      next' { result with header := header } = (next result).map ({ · with header := header })) :
    (match parseExtHeaderBody nh body { result with header := header } with
      | .error error => .error error
      | .ok result => next' result) =
    Except.map ({ · with header := header })
      (match parseExtHeaderBody nh body result with
      | .error error => .error error
      | .ok result => next result) := by
  rw [parseExtHeaderBody_header nh body result h]
  cases hbody : parseExtHeaderBody nh body result with
  | error => rfl
  | ok result' =>
    exact hnext result' (h.trans (congrArg _ (header_of_parseExtHeaderBody hbody).symm))

section Ipv6

variable {data marked : Bytes} (hlength : marked.length = data.length)
  (hsame : ∀ i, i ≠ 1 → marked[i]? = data[i]?)

include hlength hsame in
/-- The walk goes the same way in both packets. -/
theorem walkExtensionHeaders_marked (header : Ipv6Header) (packetEnd rounds : ℕ) :
    ∀ (nh : UInt8) (offset total : ℕ) (visited : Bytes) (result : Ipv6ParseResult),
      40 ≤ offset → header.payloadLength = result.header.payloadLength →
      walkExtensionHeaders marked packetEnd rounds nh offset total visited
          { result with header := header } =
        (walkExtensionHeaders data packetEnd rounds nh offset total visited result).map
          ({ · with header := header }) := by
  induction rounds with
  | zero => exact fun _ _ _ _ _ _ _ => rfl
  | succ _ ih =>
    intro nh offset total visited result hoffset hpayload
    have hbyte (i : ℕ) (hi : offset ≤ i) : byteAt marked i = byteAt data i :=
      byteAt_congr (hsame i (by omega))
    have hdrop (i : ℕ) (hi : offset ≤ i) : marked.drop i = data.drop i :=
      drop_congr fun j hj => hsame j (by omega)
    have hfragment : readFragmentHeader marked packetEnd offset =
        readFragmentHeader data packetEnd offset := by
      rw [readFragmentHeader, readFragmentHeader, hdrop _ (Nat.le_add_right ..),
        hdrop _ (Nat.le_add_right ..), hdrop _ (Nat.le_add_right ..)]
    rw [walkExtensionHeaders, walkExtensionHeaders, hlength, hbyte _ (Nat.le_add_right ..),
      hbyte _ le_rfl, hdrop _ le_rfl, hdrop _ (Nat.le_add_right ..), hfragment]
    dsimp only
    have hgoes {size total : ℕ} (r : Ipv6ParseResult)
        (hr : header.payloadLength = r.header.payloadLength) :=
      ih (byteAt data offset) (offset + size) total (visited ++ [nh])
        { r with extHeaderCount := r.extHeaderCount + 1 } (Nat.le_add_right_of_le hoffset) hr
    -- the checks are the same, also for a fragment header
    repeat
      split
      · rfl
    split
    all_goals
      repeat
        split
        · rfl
    · exact parseExtHeaderBody_next nh _
        { result with fragment := some (readFragmentHeader data packetEnd offset) } hpayload hgoes
    · exact parseExtHeaderBody_next nh _ result hpayload hgoes

theorem header_of_walkExtensionHeaders {packetEnd rounds offset total : ℕ} {nh : UInt8}
    {visited : Bytes} {result ip : Ipv6ParseResult} (hoffset : 40 ≤ offset)
    (h : walkExtensionHeaders data packetEnd rounds nh offset total visited result = .ok ip) :
    ip.header = result.header := by
  have hself := walkExtensionHeaders_marked (Eq.refl data.length) (fun _ _ => rfl) result.header
    packetEnd rounds nh offset total visited result hoffset rfl
  rw [h, Except.map, Except.ok.injEq] at hself
  rw [hself]

include hsame in
theorem readIpv6Header_marked (hbits : byteAt marked 1 = byteAt data 1 &&& 0xCF ||| 0x30) :
    readIpv6Header marked = { readIpv6Header data with
      trafficClass := (readIpv6Header data).trafficClass &&& 0xFC ||| 0x03 } := by
  have hbyte (i : ℕ) (hi : i ≠ 1) : byteAt marked i = byteAt data i := byteAt_congr (hsame i hi)
  have haddress (i : ℕ) (hi : 2 ≤ i) : bytesAt 16 marked i = bytesAt 16 data i :=
    bytesAt_congr fun j hj => hsame j (by omega)
  rw [readIpv6Header, readIpv6Header, hbits, (mark_bits_ipv6 _ _).1, (mark_bits_ipv6 0 _).2,
    hbyte 0 (by decide), hbyte 2 (by decide), hbyte 3 (by decide), hbyte 6 (by decide),
    hbyte 7 (by decide), read16_congr (hsame 4 (by decide)) (hsame 5 (by decide)),
    haddress 8 (by decide), haddress 24 (by decide)]

include hlength hsame in
theorem parseIpv6_marked (hbits : byteAt marked 1 = byteAt data 1 &&& 0xCF ||| 0x30)
    {ip : Ipv6ParseResult} (h : parseIpv6 data = .ok ip) : parseIpv6 marked = .ok { ip with
      header := { ip.header with trafficClass := ip.header.trafficClass &&& 0xFC ||| 0x03 } } := by
  have hpeek (nextHeader : UInt8) : peekJumboPayload marked nextHeader =
      peekJumboPayload data nextHeader := by
    rw [peekJumboPayload, peekJumboPayload, hlength, byteAt_congr (hsame 41 (by decide)),
      drop_congr fun i hi => hsame i (by omega)]
  have hjumbo : jumboLength marked = jumboLength data := by
    rw [jumboLength, jumboLength, readIpv6Header_marked hsame hbits, hpeek]
  have htotal : totalAfterFixed marked = totalAfterFixed data := by
    rw [totalAfterFixed, totalAfterFixed, readIpv6Header_marked hsame hbits, hjumbo, hlength]
  obtain ⟨hchecks, hwalk⟩ := parseIpv6_eq_ok.1 h
  rw [parseIpv6_eq_ok, hlength, byteAt_congr (hsame 0 (by decide)), htotal, hjumbo,
    readIpv6Header_marked hsame hbits]
  refine ⟨hchecks, (walkExtensionHeaders_marked hlength hsame _ _ _ _ _ _ _
    { header := readIpv6Header data, jumboPayloadLength := jumboLength data } le_rfl ?_).trans ?_⟩
  · rfl
  · rw [hwalk, header_of_walkExtensionHeaders le_rfl hwalk]
    rfl

include hlength hsame in
theorem Marked.of_ipv6 (hversion : byteAt data 0 >>> 4 ≠ 4) (hcapable : EcnCapable data)
    (hbits : byteAt marked 1 = byteAt data 1 &&& 0xCF ||| 0x30) : Marked data marked where
  capable := hcapable
  length := hlength
  same i hi _ := hsame i hi
  bits := by rw [if_neg hversion, hbits]
  ipv4 _ h := (hversion (version_of_parseIpv4 h)).elim
  ipv6 _ h := parseIpv6_marked hlength hsame hbits h

end Ipv6

/-! ## The mark -/

variable {data : Bytes}

theorem byteAt_set (h : 1 < data.length) (value : UInt8) : byteAt (data.set 1 value) 1 = value := by
  rw [byteAt, getD_eq_getElem?_getD, getElem?_set_self h]
  rfl

/-- The checksum of a header is found right after the mark. -/
theorem internetChecksum_refreshed {headerLength : ℕ} (hfixed : 20 ≤ headerLength)
    (hmax : headerLength ≤ 60) (hlen : headerLength ≤ data.length) :
    internetChecksum ((write16 data 10
      (internetChecksum ((write16 data 10 0).take headerLength))).take headerLength) = 0 := by
  have hlength : ((write16 data 10 0).take headerLength).length = headerLength :=
    length_take_of_le (by rwa [length_write16 (by omega)])
  rw [← write16_write16 (by omega) 0, take_write16 (by omega) (by rwa [length_write16 (by omega)])]
  refine internetChecksum_write16 rfl (by omega) ?_ (by omega) (by decide)
  rw [take_write16 (by omega) hlen, write16_write16 (by rw [length_take_of_le hlen]; omega)]

/-- A packet that gets the mark is changed in nothing else. -/
theorem markCe_marked {marked : Bytes} (h : markCe data = some marked) : Marked data marked := by
  have hset (value : UInt8) (i : ℕ) (hi : i ≠ 1) : (data.set 1 value)[i]? = data[i]? :=
    getElem?_set_ne hi.symm
  rw [markCe] at h
  dsimp only at h
  split_ifs at h with hshort hfour hecn hheader hsix hlong hecn
  · cases h
    have hlen : 12 ≤ (data.set 1 (byteAt data 1 &&& 0xFC ||| 0x03)).length := by
      rw [length_set]
      omega
    rw [byteAt_congr (hset _ 0 (by decide))] at hheader ⊢
    rw [write16_write16 (by omega)]
    refine .of_ipv4 ?_ ?_ ?_ hfour (.inl ⟨hfour, Nat.not_lt.1 hshort, by tauto⟩)
      fun _ _ => internetChecksum_refreshed hheader.1 ?_ hheader.2
    · rw [length_write16 hlen, length_set]
    · intro i hi h₁₀ h₁₁
      rw [getElem?_write16 (by omega) (by omega), hset _ i hi]
    · rw [byteAt_congr (getElem?_write16 (by omega) (.inl (by decide)) _), byteAt_set (by omega)]
    · have hmax : (byteAt data 0 &&& 0x0F).toNat ≤ 15 := by
        rw [UInt8.toNat_and]
        exact Nat.and_le_right
      exact Nat.mul_le_mul_right 4 hmax
  · cases h
    rw [length_set, byteAt_congr (hset _ 0 (by decide))] at hheader
    exact .of_ipv4 (length_set ..) (fun i hi _ _ => hset _ i hi) (byteAt_set (by omega) _) hfour
      (.inl ⟨hfour, Nat.not_lt.1 hshort, by tauto⟩)
      fun hfixed hlen => (hheader ⟨hfixed, hlen⟩).elim
  · cases h
    exact .of_ipv6 (length_set ..) (hset _) hfour (.inr ⟨hsix, Nat.not_lt.1 hlong, by tauto⟩)
      (byteAt_set (by omega) _)

end Netstack2
