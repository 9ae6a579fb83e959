import AgentBell.Streams.Bytes

/-!
# Frames

The relay over standard input and output sends its messages as frames: a header of twelve bytes and
a body.  What `WriteFrame` wrote is read back by `ReadFrame`, however the writer took the bytes and
however the reader delivers them.
-/

namespace AgentBell.Relay

open Streams

variable {w w' : Writer} {r : Reader} {rest : List UInt8}

/-- The first bytes of a frame: `AGBF`. -/
def frameMagic : List UInt8 := [65, 71, 66, 70]

/-- The version of the format. -/
def frameVersion : UInt8 := 1

/-- The size of a header. -/
def frameHeaderBytes : Nat := 12

/-- The size of the largest body. -/
def maxFrameBodyBytes : Nat := 64 * 1024

/-- The kind of a frame that carries metadata. -/
def frameKindMetadata : UInt8 := 1

/-- The kind of a frame that carries an envelope. -/
def frameKindEnvelope : UInt8 := 2

/-- The kind of a frame that carries an answer. -/
def frameKindACK : UInt8 := 3

/-- A frame. -/
structure Frame where
  kind : UInt8
  body : List UInt8
  deriving DecidableEq, Repr

/-- Why a write ended early. -/
inductive WriteError where
  | shortWrite
  | failed
  deriving DecidableEq, Repr

/-- Why a frame was not written or not read. -/
inductive FrameError where
  | invalidFrame
  | unsupportedFrame
  | frameTooLarge
  | write (context : String) (cause : WriteError)
  | read (cause : ReadError)
  deriving DecidableEq, Repr

/-- The kinds there are. -/
def validFrameKind (kind : UInt8) : Bool :=
  kind == frameKindMetadata || kind == frameKindEnvelope || kind == frameKindACK

/-- Write all bytes, as many at a time as the writer takes. -/
def writeFull (w : Writer) (value : List UInt8) : Except WriteError Unit × Writer :=
  if _hvalue : value = [] then (.ok (), w)
  else
    match w.write value with
    | (answer, w') =>
      if answer.failed then (.error .failed, w')
      else if _hshort : answer.written ≤ 0 ∨ value.length < answer.written then
        (.error .shortWrite, w')
      else writeFull w' (value.drop answer.written.toNat)
termination_by value.length
decreasing_by
  have hpos : 0 < value.length := List.length_pos_of_ne_nil _hvalue
  rw [List.length_drop]
  omega

/-- The header of a frame. -/
def frameHeader (frame : Frame) : List UInt8 :=
  frameMagic ++ [frameVersion, frame.kind, 0, 0] ++ bigEndian frame.body.length

/-- Write a frame. -/
def writeFrame (w : Writer) (frame : Frame) : Except FrameError Unit × Writer :=
  if !validFrameKind frame.kind || frame.body.isEmpty then (.error .invalidFrame, w)
  else if maxFrameBodyBytes < frame.body.length then (.error .frameTooLarge, w)
  else
    match writeFull w (frameHeader frame) with
    | (.error err, w) => (.error (.write "write relay stdio frame header: " err), w)
    | (.ok (), w) =>
      match writeFull w frame.body with
      | (.error err, w) => (.error (.write "write relay stdio frame body: " err), w)
      | (.ok (), w) => (.ok (), w)

/-- Check a header: the kind and the size of the body. -/
def parseHeader : List UInt8 → Except FrameError (UInt8 × Nat)
  | [m0, m1, m2, m3, version, kind, z0, z1, l0, l1, l2, l3] =>
    if [m0, m1, m2, m3] ≠ frameMagic ∨ z0.toNat * 2 ^ 8 + z1.toNat ≠ 0 then .error .invalidFrame
    else if version ≠ frameVersion then .error .unsupportedFrame
    else if !validFrameKind kind then .error .invalidFrame
    else if ofBigEndian l0 l1 l2 l3 = 0 then .error .invalidFrame
    else if maxFrameBodyBytes < ofBigEndian l0 l1 l2 l3 then .error .frameTooLarge
    else .ok (kind, ofBigEndian l0 l1 l2 l3)
  | _ => .error .invalidFrame

/-- Read a frame. -/
def readFrame (r : Reader) : Except FrameError Frame × Reader :=
  match r.readFull frameHeaderBytes with
  | (.error err, r) => (.error (.read err), r)
  | (.ok header, r) =>
    match parseHeader header with
    | .error err => (.error err, r)
    | .ok (kind, length) =>
      match r.readFull length with
      | (.error .eof, r) => (.error (.read .unexpectedEof), r)
      | (.error err, r) => (.error (.read err), r)
      | (.ok body, r) => (.ok ⟨kind, body⟩, r)

/-- Write frames one after the other, until one is refused. -/
def writeFrames (w : Writer) : List Frame → Except FrameError Unit × Writer
  | [] => (.ok (), w)
  | frame :: rest =>
    match writeFrame w frame with
    | (.error err, w) => (.error err, w)
    | (.ok (), w) => writeFrames w rest

/-- What repeated calls of `readFrame` return. -/
def readFrames : Nat → Reader → List (Except FrameError Frame)
  | 0, _ => []
  | calls + 1, r => (readFrame r).1 :: readFrames calls (readFrame r).2

/-! ## What a frame looks like -/

/-- A frame that can be written. -/
structure Frame.Writable (frame : Frame) : Prop where
  kind : validFrameKind frame.kind = true
  nonempty : frame.body ≠ []
  bounded : frame.body.length ≤ maxFrameBodyBytes

/-- The bytes of a frame. -/
def Frame.image (frame : Frame) : List UInt8 := frameHeader frame ++ frame.body

lemma frameHeader_length (frame : Frame) : (frameHeader frame).length = frameHeaderBytes := rfl

/-- All bytes were given to the writer when the loop ends well. -/
lemma writeFull_output {value : List UInt8} (h : writeFull w value = (.ok (), w')) :
    w'.output = w.output ++ value := by
  fun_induction writeFull w value with
  | case1 w =>
    cases h
    rw [List.append_nil]
  | case2 | case3 => cases h
  | case4 w value hvalue answer next hwrite hworks hfits ih =>
    rw [ih h, Writer.write_output hwrite, List.append_assoc, List.take_append_drop]

/-- A writer that takes everything gets all bytes. -/
lemma writeFull_plain (output value : List UInt8) :
    writeFull ⟨output, []⟩ value = (.ok (), ⟨output ++ value, []⟩) := by
  unfold writeFull
  split
  · rename_i hvalue
    rw [hvalue, List.append_nil]
  · rename_i hvalue
    have hpos : 0 < value.length := List.length_pos_of_ne_nil hvalue
    have hfits : ¬ ((value.length : Int) ≤ 0 ∨ (value.length : Int) < value.length) := by omega
    simp only [Writer.write, Bool.false_eq_true, if_false, hfits, dite_false, Int.toNat_natCast,
      List.drop_length]
    rw [writeFull, dif_pos rfl]

variable {frame : Frame}

/-- A frame that was written can be written, and its image was added to the output. -/
lemma writeFrame_ok (h : writeFrame w frame = (.ok (), w')) :
    frame.Writable ∧ w'.output = w.output ++ frame.image := by
  unfold writeFrame at h
  split at h
  · cases h
  rename_i hvalid
  split at h
  · cases h
  rename_i hbounded
  split at h
  · cases h
  rename_i u hheader
  split at h
  · cases h
  rename_i v hbody
  cases h
  rw [Bool.or_eq_true, not_or, Bool.not_eq_true', Bool.not_eq_false, List.isEmpty_iff] at hvalid
  refine ⟨⟨hvalid.1, hvalid.2, Nat.le_of_not_lt hbounded⟩, ?_⟩
  rw [writeFull_output hbody, writeFull_output hheader, Frame.image, List.append_assoc]

/-- A frame that can be written is written to a writer that takes everything. -/
lemma Frame.Writable.writes (h : frame.Writable) (output : List UInt8) :
    writeFrame ⟨output, []⟩ frame = (.ok (), ⟨output ++ frame.image, []⟩) := by
  unfold writeFrame
  rw [h.kind, if_neg (by simpa using h.nonempty), if_neg (Nat.not_lt_of_le h.bounded)]
  simp only [writeFull_plain, Frame.image, List.append_assoc]

/-- The header of a frame that can be written says what the frame is. -/
lemma Frame.Writable.parses (h : frame.Writable) :
    parseHeader (frameHeader frame) = .ok (frame.kind, frame.body.length) := by
  have hpos : frame.body.length ≠ 0 := fun hzero => h.nonempty (List.length_eq_zero_iff.mp hzero)
  have hsize : frame.body.length < 2 ^ 32 :=
    Nat.lt_of_le_of_lt h.bounded (by decide)
  simp only [frameHeader, frameMagic, bigEndian, List.cons_append, List.nil_append, parseHeader,
    ofBigEndian_bigEndian hsize, h.kind, hpos, Nat.not_lt_of_le h.bounded]
  rfl

/-- A header that is accepted is that of a frame with its kind and size. -/
lemma parseHeader_ok {header : List UInt8} {kind : UInt8} {length : Nat}
    (h : parseHeader header = .ok (kind, length)) :
    validFrameKind kind = true ∧ 0 < length ∧ length ≤ maxFrameBodyBytes ∧
      header = frameMagic ++ [frameVersion, kind, 0, 0] ++ bigEndian length := by
  unfold parseHeader at h
  split at h
  · rename_i m0 m1 m2 m3 version k z0 z1 l0 l1 l2 l3
    split at h
    · cases h
    rename_i hmagic
    split at h
    · cases h
    rename_i hversion
    split at h
    · cases h
    rename_i hkind
    split at h
    · cases h
    rename_i hzero
    split at h
    · cases h
    rename_i hlarge
    cases h
    rw [not_or, not_not, not_not] at hmagic
    rw [not_not] at hversion
    rw [Bool.not_eq_true', Bool.not_eq_false] at hkind
    have hz0 : z0 = 0 := UInt8.toNat_inj.mp (by simp only [UInt8.toNat_zero]; omega)
    have hz1 : z1 = 0 := UInt8.toNat_inj.mp (by simp only [UInt8.toNat_zero]; omega)
    refine ⟨hkind, Nat.pos_of_ne_zero hzero, Nat.le_of_not_lt hlarge, ?_⟩
    rw [bigEndian_ofBigEndian, ← hmagic.1, hz0, hz1, hversion]
    rfl
  · cases h

/-! ## Reading what was written -/

/-- A stream that begins with the image of a frame yields the frame, and the rest stays. -/
lemma readFrame_image (h : frame.Writable) (hr : r.bytes = frame.image ++ rest) :
    ∃ r', readFrame r = (.ok frame, r') ∧ r'.bytes = rest ∧ r'.ending = r.ending := by
  have hbytes : r.bytes = frameHeader frame ++ (frame.body ++ rest) := by
    rw [hr, Frame.image, List.append_assoc]
  have hheader : frameHeaderBytes ≤ r.bytes.length := by
    rw [hbytes, List.length_append, frameHeader_length]
    exact Nat.le_add_right _ _
  obtain ⟨r1, hread1, hrest1, hending1⟩ := Reader.readFull_of_le hheader
  rw [hbytes, List.take_left' (frameHeader_length frame)] at hread1
  rw [hbytes, List.drop_left' (frameHeader_length frame)] at hrest1
  have hbody : frame.body.length ≤ r1.bytes.length := by
    rw [hrest1, List.length_append]
    exact Nat.le_add_right _ _
  obtain ⟨r2, hread2, hrest2, hending2⟩ := Reader.readFull_of_le hbody
  rw [hrest1, List.take_left' rfl] at hread2
  rw [hrest1, List.drop_left' rfl] at hrest2
  refine ⟨r2, ?_, hrest2, hending2.trans hending1⟩
  unfold readFrame
  simp only [hread1, h.parses, hread2]

/-- A frame that is read stands at the beginning of the stream. -/
lemma readFrame_ok {r' : Reader} (h : readFrame r = (.ok frame, r')) :
    frame.Writable ∧ r.bytes = frame.image ++ r'.bytes := by
  by_cases hheader : frameHeaderBytes ≤ r.bytes.length
  · obtain ⟨r1, hread1, hrest1, -⟩ := Reader.readFull_of_le hheader
    unfold readFrame at h
    simp only [hread1] at h
    split at h
    · cases h
    · rename_i kind length hparse
      obtain ⟨hkind, hpos, hbounded, hhead⟩ := parseHeader_ok hparse
      by_cases hbody : length ≤ r1.bytes.length
      · obtain ⟨r2, hread2, hrest2, -⟩ := Reader.readFull_of_le hbody
        simp only [hread2] at h
        cases h
        have hlength : (r1.bytes.take length).length = length := List.length_take_of_le hbody
        refine ⟨⟨hkind, ?_, by simpa only [hlength] using hbounded⟩, ?_⟩
        · rw [← List.length_pos_iff, hlength]
          exact hpos
        · rw [Frame.image, frameHeader, hlength, ← hhead, hrest2, List.append_assoc,
            List.take_append_drop, hrest1, List.take_append_drop]
      · obtain ⟨r2, hread2⟩ := Reader.readFull_of_lt (Nat.lt_of_not_le hbody)
        simp only [hread2] at h
        generalize (if r1.bytes = [] then _ else _) = err at h
        cases err <;> cases h
  · obtain ⟨r1, hread1⟩ := Reader.readFull_of_lt (Nat.lt_of_not_le hheader)
    unfold readFrame at h
    simp only [hread1] at h
    cases h

/-- At the end of the stream a read reports the end. -/
lemma readFrame_nil (h : r.bytes = []) :
    ∃ r', readFrame r = (.error (.read r.ending.error), r') := by
  have hshort : r.bytes.length < frameHeaderBytes := by rw [h]; decide
  obtain ⟨r', hread⟩ := Reader.readFull_of_lt hshort
  rw [if_pos h] at hread
  exact ⟨r', by unfold readFrame; simp only [hread]⟩

/-- A stream that ends inside of a frame is reported as such. -/
lemma readFrame_truncated (h : frame.Writable) (hr : r.bytes <+: frame.image)
    (hnonempty : r.bytes ≠ []) (hshort : r.bytes.length < frame.image.length) :
    ∃ r', readFrame r = (.error (.read r.ending.interrupted), r') := by
  by_cases hheader : frameHeaderBytes ≤ r.bytes.length
  · obtain ⟨r1, hread1, hrest1, hending1⟩ := Reader.readFull_of_le hheader
    have htake : r.bytes.take frameHeaderBytes = frameHeader frame := by
      rw [List.prefix_iff_eq_take.mp hr, List.take_take, Nat.min_eq_left hheader, Frame.image,
        List.take_left' (frameHeader_length frame)]
    have hbody : r1.bytes.length < frame.body.length := by
      rw [Frame.image, List.length_append, frameHeader_length] at hshort
      rw [hrest1, List.length_drop]
      omega
    obtain ⟨r2, hread2⟩ := Reader.readFull_of_lt hbody
    refine ⟨r2, ?_⟩
    unfold readFrame
    simp only [hread1, htake, h.parses, hread2, hending1]
    cases r.ending <;> by_cases hempty : r1.bytes = [] <;>
      simp [hempty, Ending.error, Ending.interrupted]
  · obtain ⟨r', hread⟩ := Reader.readFull_of_lt (Nat.lt_of_not_le hheader)
    rw [if_neg hnonempty] at hread
    exact ⟨r', by unfold readFrame; simp only [hread]⟩

/-! ## Sequences of frames -/

/-- The bytes of a sequence of frames. -/
def images (frames : List Frame) : List UInt8 := (frames.map Frame.image).flatten

variable {frames : List Frame}

/-- Frames that were written can be written, and their images were added to the output. -/
lemma writeFrames_ok (h : writeFrames w frames = (.ok (), w')) :
    (∀ frame ∈ frames, frame.Writable) ∧ w'.output = w.output ++ images frames := by
  induction frames generalizing w with
  | nil =>
    cases h
    exact ⟨nofun, (List.append_nil _).symm⟩
  | cons frame rest ih =>
    unfold writeFrames at h
    split at h
    · cases h
    · rename_i u hframe
      obtain ⟨hwritable, houtput⟩ := writeFrame_ok hframe
      obtain ⟨hrest, houtputs⟩ := ih h
      refine ⟨?_, ?_⟩
      · intro other hother
        rcases List.mem_cons.mp hother with rfl | hmem
        · exact hwritable
        · exact hrest other hmem
      · rw [houtputs, houtput, List.append_assoc]
        rfl

/-- Repeated reads return the frames a stream begins with, and go on in the rest of it. -/
lemma readFrames_images (hframes : ∀ frame ∈ frames, frame.Writable)
    (hr : r.bytes = images frames ++ rest) : ∃ r', r'.bytes = rest ∧ r'.ending = r.ending ∧ ∀ more,
      readFrames (frames.length + more) r = frames.map .ok ++ readFrames more r' := by
  induction frames generalizing r with
  | nil => exact ⟨r, hr, rfl, fun more => by rw [List.length_nil, Nat.zero_add]; rfl⟩
  | cons frame tail ih =>
    have hsplit : r.bytes = frame.image ++ (images tail ++ rest) := by
      rw [hr, ← List.append_assoc]
      rfl
    obtain ⟨r1, hread, hbytes, hending⟩ := readFrame_image (hframes frame List.mem_cons_self) hsplit
    obtain ⟨r', hrest, hending', hreads⟩ :=
      ih (fun other hother => hframes other (List.mem_cons_of_mem _ hother)) hbytes
    refine ⟨r', hrest, hending'.trans hending, fun more => ?_⟩
    rw [List.length_cons, Nat.add_right_comm]
    simp only [readFrames, hread, hreads more, List.map_cons, List.cons_append]

/-- Frames that were written are read back in order, followed by the end of the stream; a frame that
is read stands at the beginning of the stream as it is written; and a stream that ends inside of a
frame yields the frames before it and an error that is not the end of the stream. -/
theorem frames_read_as_written : (∀ w w' frames, writeFrames w frames = (.ok (), w') →
      ∀ r : Reader, r.ending = .eof → w'.output = w.output ++ r.bytes →
        readFrames (frames.length + 1) r = frames.map .ok ++ [.error (.read .eof)]) ∧
    (∀ r r' frame, readFrame r = (.ok frame, r') → ∃ image, r.bytes = image ++ r'.bytes ∧
        ∀ output, writeFrame ⟨output, []⟩ frame = (.ok (), ⟨output ++ image, []⟩)) ∧
    ∀ w w' w'' frames frame, writeFrames w frames = (.ok (), w') →
      writeFrame w' frame = (.ok (), w'') →
      ∀ r : Reader, w.output ++ r.bytes <+: w''.output →
        w'.output.length < (w.output ++ r.bytes).length →
        (w.output ++ r.bytes).length < w''.output.length →
        ∃ err, err ≠ .eof ∧
          readFrames (frames.length + 1) r = frames.map .ok ++ [.error (.read err)] := by
  refine ⟨?_, ?_, ?_⟩
  · intro w w' frames hwrites r heof houtput
    obtain ⟨hframes, himages⟩ := writeFrames_ok hwrites
    have hbytes : r.bytes = images frames ++ [] := by
      rw [List.append_nil]
      exact List.append_cancel_left (houtput.symm.trans himages)
    obtain ⟨r', hrest, hending, hreads⟩ := readFrames_images hframes hbytes
    obtain ⟨r'', hlast⟩ := readFrame_nil hrest
    rw [hreads 1, readFrames, hlast, hending, heof]
    rfl
  · intro r r' frame hread
    obtain ⟨hwritable, hbytes⟩ := readFrame_ok hread
    exact ⟨frame.image, hbytes, fun output => hwritable.writes output⟩
  · intro w w' w'' frames frame hwrites hwrite r hprefix hlong hshort
    obtain ⟨hframes, himages⟩ := writeFrames_ok hwrites
    obtain ⟨hwritable, himage⟩ := writeFrame_ok hwrite
    have hstream : r.bytes <+: images frames ++ frame.image := by
      rw [himage, himages, List.append_assoc] at hprefix
      exact (List.prefix_append_right_inj _).mp hprefix
    simp only [himage, himages, List.length_append] at hlong hshort
    -- the stream is cut after the images of the first frames
    obtain ⟨tail, htail⟩ : images frames <+: r.bytes :=
      List.prefix_of_prefix_length_le (List.prefix_append _ _) hstream (by omega)
    rw [← htail] at hstream
    rw [← htail, List.length_append] at hlong hshort
    have hcut : tail <+: frame.image := (List.prefix_append_right_inj _).mp hstream
    obtain ⟨r', hrest, hending, hreads⟩ := readFrames_images hframes htail.symm
    have hnonempty : tail ≠ [] := fun hnil => by
      rw [hnil, List.length_nil] at hlong
      omega
    obtain ⟨r'', hlast⟩ := readFrame_truncated hwritable (hrest ▸ hcut)
      (hrest ▸ hnonempty) (by rw [hrest]; omega)
    refine ⟨r'.ending.interrupted, ?_, ?_⟩
    · cases r'.ending <;> nofun
    · rw [hreads 1, readFrames, hlast]
      rfl

/-- Two frames go through a writer that takes three bytes first, and arrive in two pieces of which
the second breaks off. -/
theorem two_frames_read_as_written : ∃ w w' w'' r, (∃ err, err ≠ ReadError.eof ∧
      readFrames 2 r = [.ok ⟨1, [7]⟩, .error (.read err)]) ∧
      writeFrames w [⟨1, [7]⟩] = (.ok (), w') ∧ writeFrame w' ⟨3, [8, 9]⟩ = (.ok (), w'') := by
  have hwrites : writeFrames ⟨[], [⟨3, false⟩]⟩ [⟨1, [7]⟩] = (.ok (), ⟨images [⟨1, [7]⟩], []⟩) := by
    simp [writeFrames, writeFrame, writeFull, Writer.write, validFrameKind, frameKindMetadata,
      maxFrameBodyBytes, frameHeader, frameMagic, frameVersion, bigEndian, images, Frame.image]
  have hwritable : Frame.Writable ⟨3, [8, 9]⟩ := ⟨rfl, by simp, by decide⟩
  have hwrite := hwritable.writes (images [⟨1, [7]⟩])
  refine ⟨_, _, _, ⟨[images [⟨1, [7]⟩] ++ [65], [71, 66]], .eof, false⟩, ?_, hwrites, hwrite⟩
  exact frames_read_as_written.2.2 _ _ _ _ _ hwrites hwrite _ (by decide) (by decide) (by decide)

end AgentBell.Relay
