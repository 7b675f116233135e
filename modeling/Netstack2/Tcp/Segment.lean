import Netstack2.Flow
import Netstack2.Tcp.Receive

/-!
# TCP segments and their options

An incoming segment, as the parser of packets hands it on, and the parsers of its
options: of those a SYN may carry (`parseTcpSynOptions`), and of selective
acknowledgments (`parseTcpSackBlocks`).

The parsers go through the options by their kind and length bytes. A parser makes
at most one round per byte of its input, which serves as its fuel.
-/

namespace Netstack2

namespace TcpFlag

def fin : UInt8 := 0x01
def syn : UInt8 := 0x02
def rst : UInt8 := 0x04
def psh : UInt8 := 0x08
def ack : UInt8 := 0x10
def ece : UInt8 := 0x40
def cwr : UInt8 := 0x80

end TcpFlag

/-- An incoming segment. -/
structure TcpSegmentView where
  flow : FlowKey
  sequence : UInt32 := 0
  acknowledgment : UInt32 := 0
  flags : UInt8 := 0
  window : UInt16 := 0
  options : Bytes := []
  payload : Bytes := []
  /-- The ECN codepoint of the IP header; `3` is a congestion mark. -/
  ipEcn : UInt8 := 0
  deriving DecidableEq

def TcpSegmentView.hasFlag (segment : TcpSegmentView) (flag : UInt8) : Bool :=
  segment.flags &&& flag != 0

/-! ## Options -/

inductive TcpOptionError
  | tooLong
  | truncated
  | invalidLength
  | duplicateOption
  | invalidMss
  deriving DecidableEq

/-- The options of a SYN. -/
structure TcpSynOptions where
  mssPresent : Bool := false
  mss : UInt16 := 0
  windowScalePresent : Bool := false
  windowScale : UInt8 := 0
  sackPermitted : Bool := false
  timestampPresent : Bool := false
  timestampValue : UInt32 := 0
  timestampEcho : UInt32 := 0
  deriving DecidableEq

/-- One option with the body `body`, after its kind and its length. An option of a
    kind that is not known is passed over. -/
def parseSynOption (kind : UInt8) (body : Bytes) (options : TcpSynOptions) :
    Except TcpOptionError TcpSynOptions :=
  if kind = 2 then
    if body.length ≠ 2 then .error .invalidLength
    else if options.mssPresent then .error .duplicateOption
    else if read16 body = 0 then .error .invalidMss
    else .ok { options with mssPresent := true, mss := read16 body }
  else if kind = 3 then
    if body.length ≠ 1 then .error .invalidLength
    else if options.windowScalePresent then .error .duplicateOption
    else
      let scale := body.headD 0
      .ok { options with
        windowScalePresent := true
        -- a larger scale counts as 14
        windowScale := if scale > 14 then 14 else scale }
  else if kind = 4 then
    if body.length ≠ 0 then .error .invalidLength
    else if options.sackPermitted then .error .duplicateOption
    else .ok { options with sackPermitted := true }
  else if kind = 8 then
    if body.length ≠ 8 then .error .invalidLength
    else if options.timestampPresent then .error .duplicateOption
    else .ok { options with
      timestampPresent := true
      timestampValue := read32 body
      timestampEcho := read32 (body.drop 4) }
  else .ok options

/-- Parse the options `data`, after those parsed into `options`. -/
def parseSynOptionsFrom : ℕ → Bytes → TcpSynOptions → Except TcpOptionError TcpSynOptions
  | 0, _, options => .ok options
  | _, [], options => .ok options
  | fuel + 1, kind :: rest, options =>
    if kind = 0 then .ok options
    else if kind = 1 then parseSynOptionsFrom fuel rest options
    else match rest with
      | [] => .error .truncated
      | length :: body =>
        let optionLength := length.toNat
        if optionLength < 2 then .error .invalidLength
        else if optionLength > body.length + 2 then .error .truncated
        else match parseSynOption kind (body.take (optionLength - 2)) options with
          | .error error => .error error
          | .ok options => parseSynOptionsFrom fuel (body.drop (optionLength - 2)) options

/-- Parse the options of a SYN, or of another segment for its timestamp. -/
def parseTcpSynOptions (data : Bytes) : Except TcpOptionError TcpSynOptions :=
  if data.length > 40 then .error .tooLong else parseSynOptionsFrom data.length data {}

/-- The blocks of a selective acknowledgment, at most `limit` of them. -/
def sackBlocksOf : ℕ → Bytes → List TcpSackBlock
  | 0, _ => []
  | limit + 1, body =>
    if body.length < 8 then []
    else { leftEdge := read32 body, rightEdge := read32 (body.drop 4) } ::
      sackBlocksOf limit (body.drop 8)

/-- Parse the options `data` for selective acknowledgments, after those in `blocks`. -/
def parseSackBlocksFrom : ℕ → Bytes → List TcpSackBlock → List TcpSackBlock
  | 0, _, blocks => blocks
  | _, [], blocks => blocks
  | fuel + 1, kind :: rest, blocks =>
    if kind = 0 then blocks
    else if kind = 1 then parseSackBlocksFrom fuel rest blocks
    else match rest with
      | [] => blocks
      | length :: body =>
        let optionLength := length.toNat
        if optionLength < 2 ∨ optionLength > body.length + 2 then blocks
        else if kind = 5 ∧ (optionLength - 2) % 8 ≠ 0 then blocks
        else
          let found := if kind = 5 then
              sackBlocksOf (4 - blocks.length) (body.take (optionLength - 2))
            else []
          parseSackBlocksFrom fuel (body.drop (optionLength - 2)) (blocks ++ found)

/-- The selective acknowledgments of a segment, up to four. -/
def parseTcpSackBlocks (data : Bytes) : List TcpSackBlock := parseSackBlocksFrom data.length data []

/-! ## The scale of a window -/

section

variable {P : TcpSynOptions → Prop}
  (hstep : ∀ {kind body options options'}, parseSynOption kind body options = .ok options' →
    P options → P options')

include hstep

/-- What each option keeps is true of all of them. -/
theorem parseSynOptionsFrom_induction {fuel : ℕ} {data : Bytes} {options options' : TcpSynOptions}
    (h : parseSynOptionsFrom fuel data options = .ok options') (hP : P options) : P options' := by
  induction fuel generalizing data options with
  | zero =>
    obtain rfl := Except.ok.inj h
    exact hP
  | succ _ ih =>
    cases data with
    | nil =>
      obtain rfl := Except.ok.inj h
      exact hP
    | cons _ rest =>
      unfold parseSynOptionsFrom at h
      split at h
      case isTrue =>
        obtain rfl := Except.ok.inj h
        exact hP
      case isFalse =>
        split at h
        case isTrue => exact ih h hP
        case isFalse =>
          cases rest with
          | nil => cases h
          | cons =>
            dsimp only at h
            split at h
            case isTrue => cases h
            case isFalse =>
              split at h
              case isTrue => cases h
              case isFalse =>
                split at h
                case h_1 => cases h
                case h_2 hone => exact ih h (hstep hone hP)

theorem parseTcpSynOptions_induction (hP : P {}) {data : Bytes} {options : TcpSynOptions}
    (h : parseTcpSynOptions data = .ok options) : P options := by
  rw [parseTcpSynOptions] at h
  split at h
  · cases h
  · exact parseSynOptionsFrom_induction hstep h hP

end

/-- The segment size of a SYN is not zero. -/
theorem parseTcpSynOptions_mss {data : Bytes} {options : TcpSynOptions}
    (h : parseTcpSynOptions data = .ok options) : options.mssPresent → options.mss ≠ 0 := by
  refine parseTcpSynOptions_induction (P := fun options => options.mssPresent = true →
    options.mss ≠ 0) (fun hone hP => ?_) nofun h
  unfold parseSynOption at hone
  repeat' split at hone
  all_goals cases hone
  all_goals first | exact hP | exact fun _ => ‹_›

end Netstack2
