import Mathlib
import Swarmy.Codec.BigEndian

/-!
# Splitting a container's log

`createLogDemuxer` of the agent: it takes Docker's multiplexed log stream apart as its chunks come
in, or passes a stream through that is not multiplexed.  What it does with frames does not depend on
where the stream is cut (`demux_frames`).
-/

namespace Swarmy.LogDemux

open List Option

abbrev Bytes := List UInt8

inductive LogStreamName where
  | stdout
  | stderr
deriving DecidableEq

/-- What is handed to `emit`. -/
abbrev Piece := LogStreamName × List Char

/-- The variables of a demuxer. -/
structure Demuxer where
  buf : Bytes
  raw : Option Bool

def createLogDemuxer : Demuxer := ⟨[], none⟩

/-- Whether the buffer begins with a frame header. -/
def framed : Bytes → Bool
  | type :: a :: b :: c :: _ => (type = 0 || type = 1 || type = 2) && a = 0 && b = 0 && c = 0
  | _ => false

/-- The stream of a frame's type. -/
def streamOf (buf : Bytes) : LogStreamName := if buf.head? = some 2 then .stderr else .stdout

/-- The loop over the buffer. -/
def drain (raw : Option Bool) (buf : Bytes) : Demuxer × List Piece :=
  if buf.length < 8 then (⟨buf, raw⟩, [])
  else if framed buf = false then
    if raw = none then (⟨[], some true⟩, [(.stdout, Utf8.decode buf)])
    -- Sync was lost in mid-stream.
    else (⟨[], raw⟩, [(.stdout, Utf8.decode buf)])
  else
    let size := (BigEndian.readUInt32 buf 4).getD 0
    if buf.length < 8 + size then (⟨buf, some false⟩, [])
    else
      let payload := (buf.drop 8).take size
      let rest := drain (some false) (buf.drop (8 + size))
      (rest.1, (if payload = [] then [] else [(streamOf buf, Utf8.decode payload)]) ++ rest.2)
termination_by buf.length
decreasing_by
  rw [length_drop]
  omega

/-- The demuxer takes a chunk. -/
def push (s : Demuxer) (chunk : Bytes) : Demuxer × List Piece :=
  if s.raw = some true then (s, [(.stdout, Utf8.decode chunk)])
  else drain s.raw (if s.buf = [] then chunk else s.buf ++ chunk)

def pushAll : Demuxer → List Bytes → Demuxer × List Piece
  | s, [] => (s, [])
  | s, c :: cs => ((pushAll (push s c).1 cs).1, (push s c).2 ++ (pushAll (push s c).1 cs).2)

/-- All that is emitted for the chunks of a stream. -/
def demux (chunks : List Bytes) : List Piece := (pushAll createLogDemuxer chunks).2

/-- The text that is emitted for a stream. -/
def emitted (name : LogStreamName) (out : List Piece) : List Char :=
  (out.filter (·.1 = name)).flatMap Prod.snd

/-- A `logChunk` message of `handleStreamLogs`. -/
structure LogChunk where
  commandId : String
  stream : LogStreamName
  seq : Nat
  data : List Char
  eof : Bool

/-- The messages of `handleStreamLogs` for a stream that comes in these chunks and ends. -/
def handleStreamLogs (commandId : String) (chunks : List Bytes) : List LogChunk :=
  (demux chunks).mapIdx (fun seq p => ⟨commandId, p.1, seq, p.2, false⟩) ++
    [⟨commandId, .stdout, (demux chunks).length, [], true⟩]

/-! ## Frames -/

inductive StreamType where
  | stdin
  | stdout
  | stderr

def StreamType.byte : StreamType → UInt8
  | .stdin => 0
  | .stdout => 1
  | .stderr => 2

/-- Where the agent shows what came on a stream. -/
def StreamType.name : StreamType → LogStreamName
  | .stderr => .stderr
  | _ => .stdout

/-- A frame of Docker's stream. -/
structure Frame where
  type : StreamType
  payload : Bytes
  small : payload.length < 2 ^ 32

/-- Type, three zeros and the payload's length. -/
def Frame.head (f : Frame) : Bytes := [f.type.byte, 0, 0, 0] ++ BigEndian.uint32 f.payload.length

def Frame.bytes (f : Frame) : Bytes := f.head ++ f.payload

/-- The bytes of a sequence of frames. -/
def encode (fs : List Frame) : Bytes := fs.flatMap Frame.bytes

/-- What the frames say on a stream. -/
def payload (name : LogStreamName) (fs : List Frame) : Bytes :=
  (fs.filter (·.type.name = name)).flatMap Frame.payload

/-- One piece for each frame that says something. -/
def pieces (fs : List Frame) : List Piece :=
  (fs.filter fun f => f.payload ≠ []).map fun f => (f.type.name, Utf8.decode f.payload)

@[simp] theorem Frame.length_head (f : Frame) : f.head.length = 8 := rfl

theorem Frame.length_bytes (f : Frame) : f.bytes.length = 8 + f.payload.length := by
  rw [Frame.bytes, length_append, Frame.length_head]

theorem encode_cons (f : Frame) (fs : List Frame) : encode (f :: fs) = f.bytes ++ encode fs := rfl

theorem pieces_cons (f : Frame) (fs : List Frame) : pieces (f :: fs) =
    (if f.payload = [] then [] else [(f.type.name, Utf8.decode f.payload)]) ++ pieces fs := by
  unfold pieces
  rw [filter_cons]
  by_cases h : f.payload = []
  · rw [if_neg (by simp [h]), if_pos h, nil_append]
  · rw [if_pos (by simp [h]), if_neg h, map_cons, singleton_append]

/-- What the demuxer finds at the front of a frame. -/
theorem Frame.head_append (f : Frame) (r : Bytes) : framed (f.head ++ r) = true ∧
    streamOf (f.head ++ r) = f.type.name ∧ BigEndian.readUInt32
      (f.head ++ r) 4 = some f.payload.length := by
  refine ⟨?_, ?_, ?_⟩
  · cases h : f.type <;> simp [Frame.head, h, framed, StreamType.byte]
  · cases h : f.type <;> simp [Frame.head, h, streamOf, StreamType.byte, StreamType.name]
  · rw [Frame.head, append_assoc]
    exact BigEndian.readUInt32_uint32 f.small rfl r

/-! ## Frames are taken apart wherever they are cut -/

theorem drain_short {raw : Option Bool} {buf : Bytes} (h : buf.length < 8) :
    drain raw buf = (⟨buf, raw⟩, []) := by
  rw [drain, if_pos h]

/-- A frame that is not all there is waited for. -/
theorem drain_wait (raw : Option Bool) {f : Frame} {r : Bytes} (h : r.length < f.payload.length) :
    drain raw (f.head ++ r) = (⟨f.head ++ r, some false⟩, []) := by
  obtain ⟨hframed, -, hsize⟩ := f.head_append r
  have hlen : (f.head ++ r).length = 8 + r.length := length_append
  rw [drain, if_neg (by omega), hframed, if_neg (by decide), hsize]
  exact if_pos (by rw [hlen]; exact Nat.add_lt_add_left h 8)

theorem drain_frame (raw : Option Bool) (f : Frame) (r : Bytes) : drain raw (f.bytes ++ r) =
    ((drain (some false) r).1, pieces [f] ++ (drain (some false) r).2) := by
  obtain ⟨hframed, hstream, hsize⟩ := f.head_append (f.payload ++ r)
  have hlen : (f.head ++ (f.payload ++ r)).length = 8 + f.payload.length + r.length := by
    rw [length_append, length_append, Frame.length_head, Nat.add_assoc]
  have hpayload : ((f.head ++ (f.payload ++ r)).drop 8).take f.payload.length = f.payload := by
    rw [drop_left' f.length_head, take_left]
  have hrest : (f.head ++ (f.payload ++ r)).drop (8 + f.payload.length) = r := by
    exact drop_left' f.length_bytes
  rw [Frame.bytes, append_assoc, drain, if_neg (by omega), hframed, if_neg (by decide), hsize]
  dsimp only [getD_some]
  have hone : pieces [f] = if f.payload = [] then []
      else [(f.type.name, Utf8.decode f.payload)] := by
    rw [pieces_cons]
    exact append_nil _
  rw [if_neg (by omega), hpayload, hrest, hstream, hone]

/-- What has come of a stream of frames is taken apart up to the frame that is not all there. -/
theorem drain_prefix {fs : List Frame} {p q : Bytes} (h : p ++ q = encode fs) {raw : Option Bool}
    (hraw : raw ≠ some true) : ∃ done rest b raw', fs = done ++ rest ∧ b ++ q = encode rest ∧
      (∀ f ∈ rest.head?, b.length < f.bytes.length) ∧ drain raw p = (⟨b, raw'⟩, pieces done) ∧
      raw' ≠ some true := by
  induction fs generalizing p raw with
  | nil =>
    obtain ⟨rfl, rfl⟩ := append_eq_nil_iff.mp h
    exact ⟨[], [], [], raw, rfl, rfl, nofun, drain_short (by decide), hraw⟩
  | cons f fs ih =>
    by_cases hlen : p.length < f.bytes.length
    · -- The first frame is not all there.
      have hhead : ∀ g ∈ (f :: fs).head?, p.length < g.bytes.length := by
        rintro g ⟨⟩
        exact hlen
      by_cases hshort : p.length < 8
      · exact ⟨[], f :: fs, p, raw, rfl, h, hhead, drain_short hshort, hraw⟩
      · have hprefix : f.head <+: p := by
          refine prefix_of_prefix_length_le ?_ ⟨q, h⟩ (Nat.le_of_not_lt hshort)
          exact prefix_append _ _
        obtain ⟨r, rfl⟩ := hprefix
        rw [length_append, Frame.length_bytes, Frame.length_head] at hlen
        exact ⟨[], f :: fs, _, some false, rfl, h, hhead, drain_wait raw (by omega), by decide⟩
    · have hprefix : f.bytes <+: p := by
        refine prefix_of_prefix_length_le ?_ ⟨q, h⟩ (Nat.le_of_not_lt hlen)
        exact prefix_append _ _
      obtain ⟨r, rfl⟩ := hprefix
      rw [encode_cons, append_assoc, append_cancel_left_eq] at h
      obtain ⟨done, rest, b, raw', rfl, hb, hhead, hdrain, hraw'⟩ :=
        @ih _ h (some false) (by decide)
      refine ⟨f :: done, rest, b, raw', rfl, hb, hhead, ?_, hraw'⟩
      rw [drain_frame, hdrain]
      exact congrArg (Prod.mk _) (by rw [pieces_cons f done, pieces_cons f []]; simp [pieces])

/-- With part of a frame in the buffer, the rest of the stream is taken apart frame by frame. -/
theorem pushAll_frames {rest : List Frame} {b : Bytes} {raw : Option Bool} {cs : List Bytes}
    (hraw : raw ≠ some true) (h : b ++ cs.flatten = encode rest)
    (hhead : ∀ f ∈ rest.head?, b.length < f.bytes.length) :
    (pushAll ⟨b, raw⟩ cs).2 = pieces rest := by
  induction cs generalizing rest b raw with
  | nil =>
    cases rest with
    | nil => rfl
    | cons f rest =>
      rw [flatten_nil, append_nil, encode_cons] at h
      have hlen := hhead f rfl
      rw [h, length_append] at hlen
      omega
  | cons c cs ih =>
    have hbuf : (if b = [] then c else b ++ c) = b ++ c := by
      split
      · rename_i hnil
        rw [hnil, nil_append]
      · rfl
    rw [flatten_cons, ← append_assoc] at h
    obtain ⟨done, rest, b', raw', rfl, hb, hhead', hdrain, hraw'⟩ := drain_prefix h hraw
    rw [pushAll, push, if_neg hraw, hbuf, hdrain]
    rw [ih hraw' hb hhead', pieces, pieces, pieces, filter_append, map_append]

/-- What is emitted for frames does not depend on how their bytes are cut. -/
theorem demux_frames {fs : List Frame} {chunks : List Bytes} (h : chunks.flatten = encode fs) :
    demux chunks = pieces fs := by
  refine pushAll_frames nofun (by rwa [nil_append]) fun f _ => ?_
  rw [Frame.length_bytes]
  exact Nat.lt_of_lt_of_le Nat.zero_lt_one (by omega)

end Swarmy.LogDemux

/-!
## What a container's log loses on its way

The texts that are emitted are those of the log only where no character is cut: by the end of a
frame, or, in a stream that is passed through, by the end of a chunk.  Of a stream that is passed
through nothing is emitted before its eighth byte.
-/

namespace Swarmy.LogDemux

open Utf8 (Begins)

/-! ## Streams that are passed through -/

/-- Whether a stream begins with a whole frame header. -/
def StartsWithHeader (bs : Bytes) : Prop := 8 ≤ bs.length ∧ framed bs = true

/-- What is passed through as one piece: the chunks up to the eighth byte, then each chunk. -/
def rawPieces : Bytes → List Bytes → List Bytes
  | _, [] => []
  | b, c :: cs => if (b ++ c).length < 8 then rawPieces (b ++ c) cs else (b ++ c) :: cs

theorem framed_append {p : Bytes} (h : 4 ≤ p.length) (q : Bytes) : framed (p ++ q) = framed p := by
  match p with
  | _ :: _ :: _ :: _ :: _ => rfl
  | [] | [_] | [_, _] | [_, _, _] => simp at h

theorem pushAll_raw (cs : List Bytes) :
    (pushAll ⟨[], some true⟩ cs).2 = cs.map fun p => (.stdout, Utf8.decode p) := by
  induction cs with
  | nil => rfl
  | cons c cs ih =>
    rw [pushAll, push, if_pos rfl, List.map_cons, ih]
    rfl

variable {b : Bytes} {cs : List Bytes}

/-- Before the eighth byte everything is kept; from then on everything is passed through. -/
theorem pushAll_waiting (hb : b.length < 8) (h : ¬ StartsWithHeader (b ++ cs.flatten)) :
    (pushAll ⟨b, none⟩ cs).2 = (rawPieces b cs).map fun p => (.stdout, Utf8.decode p) := by
  induction cs generalizing b with
  | nil => rfl
  | cons c cs ih =>
    have hbuf : (if b = [] then c else b ++ c) = b ++ c := by
      split
      · rename_i hnil
        rw [hnil, List.nil_append]
      · rfl
    rw [List.flatten_cons, ← List.append_assoc] at h
    rw [pushAll, push, if_neg nofun, hbuf, rawPieces]
    by_cases hlen : (b ++ c).length < 8
    · rw [drain_short hlen, if_pos hlen]
      exact ih hlen h
    · have hframed : framed (b ++ c) = false := by
        by_contra htrue
        refine h ⟨?_, ?_⟩
        · rw [List.length_append]
          omega
        · rw [framed_append (by omega)]
          exact Bool.not_eq_false _ ▸ htrue
      rw [if_neg hlen, drain, if_neg hlen, if_pos hframed, if_pos rfl, pushAll_raw]
      rfl

theorem flatten_rawPieces (h : 8 ≤ (b ++ cs.flatten).length) (hb : b.length < 8) :
    (rawPieces b cs).flatten = b ++ cs.flatten := by
  induction cs generalizing b with
  | nil =>
    rw [List.flatten_nil, List.append_nil] at h
    omega
  | cons c cs ih =>
    rw [List.flatten_cons, ← List.append_assoc] at h ⊢
    rw [rawPieces]
    split
    · rename_i hlen
      exact ih h hlen
    · rfl

theorem rawPieces_short (h : (b ++ cs.flatten).length < 8) : rawPieces b cs = [] := by
  induction cs generalizing b with
  | nil => rfl
  | cons c cs ih =>
    rw [List.flatten_cons, ← List.append_assoc] at h
    have hlen : (b ++ c).length < 8 := by
      rw [List.length_append] at h
      omega
    rw [rawPieces, if_pos hlen, ih h]

theorem begins_left {p q : Bytes} (h : Begins (p ++ q)) : Begins p := by
  cases p with
  | nil => exact nofun
  | cons x p => exact h

/-- The pieces are texts when no chunk from the eighth byte on begins within a character. -/
theorem rawPieces_iff {text : List Char} (hb : b.length < 8)
    (h : b ++ cs.flatten = Utf8.encode text) (hlen : 8 ≤ (b ++ cs.flatten).length) :
    (∀ p ∈ rawPieces b cs, ∃ ds, p = Utf8.encode ds) ↔
      ∀ k, 8 ≤ (b ++ (cs.take k).flatten).length → Begins (cs.drop k).flatten := by
  induction cs generalizing b with
  | nil =>
    rw [List.flatten_nil, List.append_nil] at hlen
    omega
  | cons c cs ih =>
    rw [List.flatten_cons, ← List.append_assoc] at h hlen
    have hzero : ∀ P : Nat → Prop, (∀ k, 8 ≤ (b ++ ((c :: cs).take k).flatten).length → P k) ↔
        ∀ k, 8 ≤ ((b ++ c) ++ (cs.take k).flatten).length → P (k + 1) := fun P => by
      constructor
      · intro hall k hk
        refine hall (k + 1) ?_
        rwa [List.take_succ_cons, List.flatten_cons, ← List.append_assoc]
      · rintro hall (_ | k) hk
        · rw [List.take_zero, List.flatten_nil, List.append_nil] at hk
          omega
        · refine hall k ?_
          rwa [List.take_succ_cons, List.flatten_cons, ← List.append_assoc] at hk
    rw [hzero, rawPieces]
    split
    · rename_i hshort
      exact ih hshort h hlen
    · constructor
      · intro hall k _
        refine Utf8.begins_flatten fun p hp => ?_
        obtain ⟨ds, rfl⟩ := hall p (List.mem_cons_of_mem _ (List.mem_of_mem_drop hp))
        exact Utf8.begins_encode ds
      · intro hall
        refine Utf8.encode_pieces h (List.forall_mem_cons.mpr ⟨?_, fun p hp => ?_⟩)
        · refine @begins_left _ cs.flatten ?_
          rw [h]
          exact Utf8.begins_encode text
        · obtain ⟨l, r, rfl⟩ := List.append_of_mem hp
          have hk := hall l.length (by rw [List.length_append]; omega)
          rw [List.drop_succ_cons, List.drop_left, List.flatten_cons] at hk
          exact begins_left hk

/-! ## What is emitted -/

theorem emitted_raw (name : LogStreamName) (ps : List Bytes) :
    emitted name (ps.map fun p => (.stdout, Utf8.decode p)) =
      if LogStreamName.stdout = name then ps.flatMap Utf8.decode else [] := by
  induction ps with
  | nil => exact (ite_self _).symm
  | cons p ps ih =>
    unfold emitted at ih ⊢
    rw [List.map_cons, List.filter_cons]
    by_cases h : LogStreamName.stdout = name
    · rw [if_pos (decide_eq_true h), if_pos h, List.flatMap_cons, ih, if_pos h, List.flatMap_cons]
    · rw [if_neg (by simpa using h), ih, if_neg h, if_neg h]

/-- The payloads of a stream, frame by frame. -/
def payloads (name : LogStreamName) (fs : List Frame) : List Bytes :=
  (fs.filter (·.type.name = name)).map Frame.payload

/-- What a stream shows is what its frames say one by one. -/
theorem emitted_pieces (name : LogStreamName) (fs : List Frame) :
    emitted name (pieces fs) = (payloads name fs).flatMap Utf8.decode := by
  induction fs with
  | nil => rfl
  | cons f fs ih =>
    unfold emitted payloads at ih ⊢
    rw [pieces_cons, List.filter_append, List.flatMap_append, ih]
    have hpiece : ((if f.payload = [] then [] else [(f.type.name, Utf8.decode f.payload)]).filter
        (·.1 = name)).flatMap Prod.snd =
          if f.type.name = name then Utf8.decode f.payload else [] := by
      by_cases hnil : f.payload = []
      · rw [if_pos hnil, hnil]
        exact (ite_self _).symm
      · rw [if_neg hnil, List.filter_singleton]
        by_cases hname : f.type.name = name
        · rw [if_pos hname, decide_eq_true hname]
          exact List.append_nil _
        · rw [if_neg hname, decide_eq_false hname]
          rfl
    rw [hpiece, List.filter_cons]
    by_cases hname : f.type.name = name
    · rw [if_pos hname, if_pos (decide_eq_true hname), List.map_cons, List.flatMap_cons]
    · rw [if_neg hname, if_neg (by simpa using hname), List.nil_append]

theorem forall_payloads {fs : List Frame} {P : Bytes → Prop} :
    (∀ name, ∀ p ∈ payloads name fs, P p) ↔ ∀ f ∈ fs, P f.payload := by
  constructor
  · intro h f hf
    exact h f.type.name _ (List.mem_map.mpr ⟨f, List.mem_filter.mpr ⟨hf, decide_eq_true rfl⟩, rfl⟩)
  · intro h name p hp
    obtain ⟨f, hf, rfl⟩ := List.mem_map.mp hp
    exact h f (List.mem_of_mem_filter hf)

/-- The messages carry the pieces in their order, numbered from zero, and then the end. -/
theorem handleStreamLogs_pieces (commandId : String) (chunks : List Bytes) :
    (handleStreamLogs commandId chunks).map (fun m => (m.stream, m.data)) =
        demux chunks ++ [(.stdout, [])] ∧
      (handleStreamLogs commandId chunks).map LogChunk.seq =
        List.range ((demux chunks).length + 1) := by
  unfold handleStreamLogs
  constructor
  · rw [List.map_append]
    refine congrArg (· ++ [(LogStreamName.stdout, [])]) (List.ext_getElem (by simp) fun i _ _ => ?_)
    simp
  · rw [List.map_append, List.range_succ]
    refine congrArg (· ++ [(demux chunks).length]) (List.ext_getElem (by simp) fun i _ _ => ?_)
    simp

end Swarmy.LogDemux
