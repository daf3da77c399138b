import FigmaDevMcp.Lib.Delivery
import FigmaDevMcp.Protocol.Limits

set_option autoImplicit false

/-!
# Length framing

The frames of `rpc.rs`: four bytes of length, and the JSON of a message. The JSON itself is that of
`serde_json`, a parameter here.

* `encodeFrame`, `decodeFrame`, `readFrame`: from the source;
* `encodeFrame_eq`, `decodeFrame_framed`: what they do, by the length of the JSON;
* `readFrame_framed`, `readFrame_cut`: reading a whole frame, and one that is cut;
* `frames_round_trip`: **a stream of frames is read as its messages**, in whatever pieces it comes.
-/

namespace FigmaDevMcp.Protocol

open Delivery

/-- The kinds of `io::Error` that a writer tells apart. -/
inductive IoError
  | unexpectedEof | other
deriving DecidableEq

/-- What the framing uses of `serde_json` for messages `T`. -/
structure SerdeJson (T E : Type) where
  /-- What `to_writer` writes, one write after the other. -/
  writes : T → List (List UInt8)
  /-- Why a message cannot be serialized, after these writes. -/
  failure : T → Option E
  /-- The error of `to_writer` where a write fails. -/
  ofIo : IoError → E
  fromSlice : List UInt8 → Except E T

/-- Why a frame is not written or read. -/
inductive FrameError (E : Type)
  | tooLarge (actual maximum : ℕ)
  | lengthOverflow (length : ℕ)
  | lengthMismatch (declared actual : ℕ)
  | io (error : IoError)
  | json (error : E)
deriving DecidableEq

/-- A writer that takes so many bytes. -/
structure CappedWriter where
  bytes : List UInt8 := []
  maximum : ℕ
  exceeded : Bool := false

namespace CappedWriter

/-- One call of `write`. It fails where there is no room for the whole buffer. -/
def write (w : CappedWriter) (buffer : List UInt8) : Option IoError × CappedWriter :=
  let remaining := w.maximum - w.bytes.length
  if remaining < buffer.length then (some .other, { w with exceeded := true })
  else (none, { w with bytes := w.bytes ++ buffer })

/-- Writes in a row, up to the first that fails. -/
def writeAll : List (List UInt8) → CappedWriter → Option IoError × CappedWriter
  | [], w => (none, w)
  | buffer :: rest, w =>
    match w.write buffer with
    | (some error, w) => (some error, w)
    | (none, w) => writeAll rest w

end CappedWriter

section

variable {T E : Type} (json : SerdeJson T E)

/-- The value is written until an error. -/
def SerdeJson.toWriter (w : CappedWriter) (value : T) : Option E × CappedWriter :=
  match CappedWriter.writeAll (json.writes value) w with
  | (some error, w) => (some (json.ofIo error), w)
  | (none, w) => (json.failure value, w)

/-- Four bytes, the high ones first. -/
def toBeBytes (length : ℕ) : List UInt8 :=
  [.ofNat (length / 0x1000000), .ofNat (length / 0x10000), .ofNat (length / 0x100), .ofNat length]

/-- The number of bytes, the high ones first. -/
def fromBeBytes (bytes : List UInt8) : ℕ := bytes.foldl (fun n byte => n * 0x100 + byte.toNat) 0

/-- A frame whose body is within a bound. -/
def encodeFrameWithMaximum (value : T) (maximum : ℕ) : Except (FrameError E) (List UInt8) :=
  match json.toWriter { maximum } value with
  | (some error, writer) =>
    if writer.exceeded then .error (.tooLarge (maximum + 1) maximum) else .error (.json error)
  | (none, writer) =>
    let body := writer.bytes
    if body.length < 2 ^ 32 then .ok (toBeBytes body.length ++ body)
    else .error (.lengthOverflow body.length)

/-- A frame whose body is within the bound of an envelope. -/
def encodeFrame (value : T) : Except (FrameError E) (List UInt8) :=
  encodeFrameWithMaximum json value maxEnvelopeBytes

/-- The length of a body is within the bound. -/
def validateBodyLength (length : ℕ) : Except (FrameError E) Unit :=
  if maxEnvelopeBytes < length then .error (.tooLarge length maxEnvelopeBytes) else .ok ()

/-- The value in a body. -/
def SerdeJson.parseBody (body : List UInt8) : Except (FrameError E) T :=
  (json.fromSlice body).mapError .json

/-- The value in a frame, which must have the length that it names. -/
def decodeFrame (frame : List UInt8) : Except (FrameError E) T := do
  if frame.length < 4 then .error (.lengthMismatch 4 frame.length)
  else
    let declared := fromBeBytes (frame.take 4)
    validateBodyLength declared
    let body := frame.drop 4
    if body.length ≠ declared then .error (.lengthMismatch declared body.length)
    else json.parseBody body

/-- A reader that delivers bytes, and what is left of it. -/
def readFrame (reader : List (Piece UInt8)) : Except (FrameError E) T × List (Piece UInt8) :=
  match readExact 4 reader with
  | (none, reader) => (.error (.io .unexpectedEof), reader)
  | (some lengthBytes, reader) =>
    let declared := fromBeBytes lengthBytes
    match (validateBodyLength declared : Except (FrameError E) Unit) with
    | .error error => (.error error, reader)
    | .ok () =>
      match readExact declared reader with
      | (none, reader) => (.error (.io .unexpectedEof), reader)
      | (some body, reader) => (json.parseBody body, reader)

/-- What so many calls of `readFrame` return, one after the other. -/
def readFrames : ℕ → List (Piece UInt8) → List (Except (FrameError E) T)
  | 0, _ => []
  | calls + 1, reader => (readFrame json reader).1 :: readFrames calls (readFrame json reader).2

end

/-! ## The length of a frame -/

@[simp] theorem length_toBeBytes (length : ℕ) : (toBeBytes length).length = 4 := rfl

theorem fromBeBytes_toBeBytes {length : ℕ} (h : length < 2 ^ 32) :
    fromBeBytes (toBeBytes length) = length := by
  simp only [fromBeBytes, toBeBytes, List.foldl_cons, List.foldl_nil, UInt8.toNat_ofNat']
  omega

theorem maxEnvelopeBytes_lt : maxEnvelopeBytes < 2 ^ 32 := by decide

/-! ## Writing -/

namespace CappedWriter

/-- **Writes go through just where all of them fit**, and then add up. -/
theorem writeAll_eq (buffers : List (List UInt8)) {w : CappedWriter}
    (hw : w.bytes.length ≤ w.maximum) (hexceeded : w.exceeded = false) :
    if w.bytes.length + buffers.flatten.length ≤ w.maximum then
      writeAll buffers w = (none, { w with bytes := w.bytes ++ buffers.flatten })
    else (writeAll buffers w).1 = some .other ∧ (writeAll buffers w).2.exceeded = true := by
  induction buffers generalizing w with
  | nil =>
      rw [if_pos (by simpa using hw), List.flatten_nil, List.append_nil]
      rfl
  | cons buffer rest ih =>
      rw [List.flatten_cons, List.length_append, writeAll, write]
      by_cases hfit : w.maximum - w.bytes.length < buffer.length
      · rw [if_neg (by omega), if_pos hfit]
        exact ⟨rfl, rfl⟩
      · rw [if_neg hfit]
        have hroom : (w.bytes ++ buffer).length ≤ w.maximum := by
          rw [List.length_append]
          omega
        have hrest := @ih { w with bytes := w.bytes ++ buffer } hroom hexceeded
        rw [List.length_append, Nat.add_assoc, List.append_assoc] at hrest
        exact hrest

end CappedWriter

section

variable {T E : Type} (json : SerdeJson T E)

namespace SerdeJson

/-- The JSON of a message. -/
def text (value : T) : List UInt8 := (json.writes value).flatten

/-- The message can be serialized. -/
def Encodes (value : T) : Prop := json.failure value = none

/-- The message can be serialized, and its JSON is read as the message. -/
structure RoundTrips (value : T) : Prop where
  encodes : json.Encodes value
  decodes : json.fromSlice (json.text value) = .ok value

end SerdeJson

/-- The length and the JSON of a message. -/
def framed (value : T) : List UInt8 := toBeBytes (json.text value).length ++ json.text value

variable {json}

theorem length_framed (value : T) : (framed json value).length = 4 + (json.text value).length :=
  List.length_append

/-- **A message is encoded just where its JSON is within the limit.** -/
theorem encodeFrame_eq {value : T} (h : json.Encodes value) :
    encodeFrame json value =
      if (json.text value).length ≤ maxEnvelopeBytes then .ok (framed json value)
      else .error (.tooLarge (maxEnvelopeBytes + 1) maxEnvelopeBytes) := by
  have hwrites := CappedWriter.writeAll_eq (json.writes value)
    (w := { maximum := maxEnvelopeBytes }) (Nat.zero_le _) rfl
  rw [List.length_nil, Nat.zero_add, List.nil_append] at hwrites
  rw [encodeFrame, encodeFrameWithMaximum, SerdeJson.toWriter]
  by_cases hfit : (json.text value).length ≤ maxEnvelopeBytes
  · have hlt : (json.text value).length < 2 ^ 32 := Nat.lt_of_le_of_lt hfit maxEnvelopeBytes_lt
    rw [if_pos (by exact hfit)] at hwrites
    rw [hwrites, if_pos hfit]
    dsimp only
    rw [show json.failure value = none from h]
    exact if_pos hlt
  · rw [if_neg (by exact hfit)] at hwrites
    obtain ⟨herror, hexceeded⟩ := hwrites
    rw [if_neg hfit]
    generalize CappedWriter.writeAll (json.writes value) { maximum := maxEnvelopeBytes } = r
      at herror hexceeded
    obtain ⟨error, writer⟩ := r
    obtain rfl : error = some .other := herror
    exact if_pos hexceeded

/-- Whatever is encoded is the frame of its message, within the limit. -/
theorem of_encodeFrame_eq_ok {value : T} {frame : List UInt8} (h : encodeFrame json value = .ok frame) :
    json.Encodes value ∧ (json.text value).length ≤ maxEnvelopeBytes ∧ frame = framed json value := by
  have hwrites := CappedWriter.writeAll_eq (json.writes value)
    (w := { maximum := maxEnvelopeBytes }) (Nat.zero_le _) rfl
  have hencodes : json.Encodes value := by
    cases hfailure : json.failure value with
    | none => exact hfailure
    | some error =>
        exfalso
        rw [encodeFrame, encodeFrameWithMaximum, SerdeJson.toWriter, hfailure] at h
        split_ifs at hwrites
        · rw [hwrites] at h
          cases h
        · generalize CappedWriter.writeAll (json.writes value) { maximum := maxEnvelopeBytes } = r
            at h hwrites
          obtain ⟨ioError, writer⟩ := r
          obtain rfl : ioError = some .other := hwrites.1
          obtain hexceeded : writer.exceeded = true := hwrites.2
          dsimp only at h
          rw [if_pos hexceeded] at h
          cases h
  rw [encodeFrame_eq hencodes] at h
  split_ifs at h with hfit
  exact ⟨hencodes, hfit, (Except.ok.inj h).symm⟩

/-! ## Reading -/

theorem validateBodyLength_ok {length : ℕ} (h : length ≤ maxEnvelopeBytes) :
    (validateBodyLength length : Except (FrameError E) Unit) = .ok () :=
  if_neg (Nat.not_lt_of_le h)

theorem decodeFrame_framed {value : T} (h : (json.text value).length ≤ maxEnvelopeBytes) :
    decodeFrame json (framed json value) = json.parseBody (json.text value) := by
  have hlt : (json.text value).length < 2 ^ 32 := Nat.lt_of_le_of_lt h maxEnvelopeBytes_lt
  have htake : (framed json value).take 4 = toBeBytes (json.text value).length := rfl
  have hdrop : (framed json value).drop 4 = json.text value := rfl
  rw [decodeFrame, if_neg (by rw [length_framed]; omega), htake, hdrop, fromBeBytes_toBeBytes hlt]
  dsimp only
  rw [validateBodyLength_ok h]
  exact if_neg (not_not_intro rfl)

/-- A reader with a whole frame at its front. -/
theorem readFrame_framed {value : T} (h : (json.text value).length ≤ maxEnvelopeBytes)
    {reader : List (Piece UInt8)} {more : List UInt8}
    (hreader : contents reader = framed json value ++ more) :
    ∃ left, readFrame json reader = (json.parseBody (json.text value), left) ∧
      contents left = more := by
  have hlt : (json.text value).length < 2 ^ 32 := Nat.lt_of_le_of_lt h maxEnvelopeBytes_lt
  have hlength := congrArg List.length hreader
  rw [List.length_append, length_framed] at hlength
  obtain ⟨afterLength, hfirst, hafter⟩ := readExact_ok (show 4 ≤ (contents reader).length by omega)
  have htake : (contents reader).take 4 = toBeBytes (json.text value).length := by
    rw [hreader]
    rfl
  have hbody : contents afterLength = json.text value ++ more := by
    rw [hafter, hreader]
    rfl
  obtain ⟨left, hsecond, hleft⟩ := readExact_ok
    (show (json.text value).length ≤ (contents afterLength).length by
      rw [hbody, List.length_append]; omega)
  refine ⟨left, ?_, ?_⟩
  · rw [readFrame, hfirst, htake]
    dsimp only
    rw [fromBeBytes_toBeBytes hlt, validateBodyLength_ok h, hsecond, hbody, List.take_left]
  · rw [hleft, hbody, List.drop_left]

/-- A reader that ends within a frame. -/
theorem readFrame_cut {value : T} (h : (json.text value).length ≤ maxEnvelopeBytes)
    {reader : List (Piece UInt8)} (hreader : contents reader <+: framed json value)
    (hcut : contents reader ≠ framed json value) :
    readFrame json reader = (.error (.io .unexpectedEof), []) := by
  have hlt : (json.text value).length < 2 ^ 32 := Nat.lt_of_le_of_lt h maxEnvelopeBytes_lt
  obtain ⟨rest, hrest⟩ := hreader
  have hlength := congrArg List.length hrest
  rw [List.length_append, length_framed] at hlength
  have hpos : rest ≠ [] := by
    rintro rfl
    exact hcut (by rw [← hrest, List.append_nil])
  have hpos' := List.length_pos_of_ne_nil hpos
  by_cases hshort : (contents reader).length < 4
  · rw [readFrame, readExact_short hshort]
  · obtain ⟨afterLength, hfirst, hafter⟩ := readExact_ok (Nat.le_of_not_lt hshort)
    have htake : (contents reader).take 4 = toBeBytes (json.text value).length := by
      have hwhole := @List.take_append_of_le_length _ _ rest _ (Nat.le_of_not_lt hshort)
      rw [← hwhole, hrest]
      rfl
    have hbody : (contents afterLength).length < (json.text value).length := by
      rw [hafter, List.length_drop]
      omega
    rw [readFrame, hfirst, htake]
    dsimp only
    rw [fromBeBytes_toBeBytes hlt, validateBodyLength_ok h, readExact_short hbody]

/-- A reader at its end. -/
theorem readFrame_end {reader : List (Piece UInt8)} (h : contents reader = []) :
    readFrame json reader = (.error (.io .unexpectedEof), []) := by
  rw [readFrame, readExact_short (by rw [h]; decide)]

theorem readFrames_end {reader : List (Piece UInt8)} (h : contents reader = []) (calls : ℕ) :
    readFrames json calls reader = List.replicate calls (.error (.io .unexpectedEof)) := by
  induction calls generalizing reader with
  | zero => rfl
  | succ calls ih => rw [readFrames, readFrame_end h, List.replicate_succ, ih rfl]

/-- The front of a frame, but not all of it. -/
def CutFrame (json : SerdeJson T E) (cut : List UInt8) : Prop :=
  cut = [] ∨ ∃ value frame, encodeFrame json value = .ok frame ∧ cut <+: frame ∧ cut ≠ frame

theorem readFrames_cut {reader : List (Piece UInt8)} (h : CutFrame json (contents reader)) (calls : ℕ) :
    readFrames json calls reader = List.replicate calls (.error (.io .unexpectedEof)) := by
  rcases h with hend | ⟨value, frame, hframe, hprefix, hne⟩
  · exact readFrames_end hend calls
  · obtain ⟨_, hfit, rfl⟩ := of_encodeFrame_eq_ok hframe
    cases calls with
    | zero => rfl
    | succ calls =>
        rw [readFrames, readFrame_cut hfit hprefix hne, List.replicate_succ, readFrames_end rfl]

/-- **A stream of frames is read as its messages**, in order, and then as nothing more. -/
theorem readFrames_eq {sent : List (T × List UInt8)}
    (hsent : ∀ p ∈ sent, json.RoundTrips p.1 ∧ encodeFrame json p.1 = .ok p.2) {cut : List UInt8}
    (hcut : CutFrame json cut) {reader : List (Piece UInt8)}
    (hreader : contents reader = sent.flatMap Prod.snd ++ cut) (calls : ℕ) :
    readFrames json (sent.length + calls) reader =
      sent.map (fun p => .ok p.1) ++ List.replicate calls (.error (.io .unexpectedEof)) := by
  induction sent generalizing reader with
  | nil =>
      rw [List.flatMap_nil, List.nil_append] at hreader
      rw [List.length_nil, Nat.zero_add]
      exact readFrames_cut (hreader ▸ hcut) calls
  | cons p sent ih =>
      have ⟨⟨hround, hframe⟩, hrest⟩ := List.forall_mem_cons.1 hsent
      obtain ⟨_, hfit, hp⟩ := of_encodeFrame_eq_ok hframe
      rw [List.flatMap_cons, hp, List.append_assoc] at hreader
      obtain ⟨left, hread, hleft⟩ := readFrame_framed hfit hreader
      have hcalls : (p :: sent).length + calls = sent.length + calls + 1 := by
        rw [List.length_cons]
        omega
      rw [hcalls, readFrames, hread, ih hrest hleft, List.map_cons, List.cons_append,
        SerdeJson.parseBody, hround.decodes]
      rfl

variable (json) in
/-- **The frames of messages.** Encoding fails just where the JSON is over the limit, decoding gives
the message back, and a stream of frames is read as its messages, in whatever pieces it comes; one
that ends within a frame gives no message for it. -/
theorem frames_round_trip :
    (∀ value, json.Encodes value →
        ((∃ error, encodeFrame json value = .error error) ↔
          maxEnvelopeBytes < (json.text value).length)) ∧
      (∀ value frame, json.RoundTrips value → encodeFrame json value = .ok frame →
        decodeFrame json frame = .ok value) ∧
      ∀ sent : List (T × List UInt8),
        (∀ p ∈ sent, json.RoundTrips p.1 ∧ encodeFrame json p.1 = .ok p.2) →
        ∀ cut, CutFrame json cut → ∀ reader, contents reader = sent.flatMap Prod.snd ++ cut →
          ∀ calls, readFrames json (sent.length + calls) reader =
            sent.map (fun p => .ok p.1) ++ List.replicate calls (.error (.io .unexpectedEof)) := by
  refine ⟨fun value hvalue => ?_, fun value frame hround hframe => ?_,
    fun sent hsent cut hcut reader hreader calls => readFrames_eq hsent hcut hreader calls⟩
  · rw [encodeFrame_eq hvalue]
    by_cases hfit : (json.text value).length ≤ maxEnvelopeBytes
    · rw [if_pos hfit]
      exact iff_of_false (fun ⟨_, h⟩ => nomatch h) (Nat.not_lt_of_le hfit)
    · rw [if_neg hfit]
      exact iff_of_true ⟨_, rfl⟩ (Nat.lt_of_not_le hfit)
  · obtain ⟨_, hfit, rfl⟩ := of_encodeFrame_eq_ok hframe
    rw [decodeFrame_framed hfit, SerdeJson.parseBody, hround.decodes]
    rfl

end

/-- The JSON of truth values. -/
def boolJson : SerdeJson Bool Unit where
  writes value := if value then [[0x74, 0x72], [0x75, 0x65]] else [[0x66, 0x61, 0x6c], [0x73, 0x65]]
  failure _ := none
  ofIo _ := ()
  fromSlice body :=
    if body = [0x74, 0x72, 0x75, 0x65] then .ok true
    else if body = [0x66, 0x61, 0x6c, 0x73, 0x65] then .ok false
    else .error ()

/-- Two frames and the start of a third, in four pieces with an interruption. -/
def boolReader : List (Piece UInt8) :=
  [.items 0 [0], .items 0 [4, 0x74, 0x72, 0x75, 0x65, 0], .interrupted, .items 0 [0, 5, 0x66],
    .items 0x61 [0x6c, 0x73, 0x65, 0, 0]]

/-- The two messages are read, and nothing of the third. -/
theorem frames_round_trip_bool :
    decodeFrame boolJson [0, 0, 0, 4, 0x74, 0x72, 0x75, 0x65] = .ok true ∧
      readFrames boolJson 4 boolReader = [.ok true, .ok false, .error (.io .unexpectedEof),
        .error (.io .unexpectedEof)] := by
  obtain ⟨_, hdecode, hread⟩ := frames_round_trip boolJson
  have htrue : encodeFrame boolJson true = .ok [0, 0, 0, 4, 0x74, 0x72, 0x75, 0x65] := rfl
  have hfalse : encodeFrame boolJson false = .ok [0, 0, 0, 5, 0x66, 0x61, 0x6c, 0x73, 0x65] := rfl
  have hrounds : ∀ value, boolJson.RoundTrips value := fun value => ⟨rfl, by cases value <;> rfl⟩
  refine ⟨hdecode true _ (hrounds true) htrue, ?_⟩
  refine hread [(true, [0, 0, 0, 4, 0x74, 0x72, 0x75, 0x65]),
    (false, [0, 0, 0, 5, 0x66, 0x61, 0x6c, 0x73, 0x65])] ?_ [0, 0]
    (.inr ⟨true, _, htrue, by decide, by decide⟩) boolReader rfl 2
  exact List.forall_mem_cons.2 ⟨⟨hrounds true, htrue⟩,
    List.forall_mem_singleton.2 ⟨hrounds false, hfalse⟩⟩

end FigmaDevMcp.Protocol
