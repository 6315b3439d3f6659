import Mathlib.Data.List.Induction
import RustPlc.Core.Utf8
import RustPlc.L1Ir.NumberText

/-!
# Framing of debug messages

`read_dap_message` and `send_dap_message` of
crates/st-target-agent/src/dap_attach_handler.rs, on the bytes of the stream:
header fields, each on a line, an empty line and a body of `Content-Length`
bytes. After that field the reader takes one line for the empty one.

What `serde_json` reads from a body is the parameter `fromSlice`; a `Frame` is
a body it reads, with its header.

Results
* `framing_iff`: the reader takes frame after frame from the stream exactly
  when no field follows the length.
-/
namespace RustPlc.Target.Framing

open RustPlc.Core.Utf8 RustPlc.Ir

/-! ## The reader -/

variable {J : Type} (fromSlice : List UInt8 → Except String J)

/-- `BufRead::read_line`: up to LF or the end of the stream. -/
def readLine : List UInt8 → List UInt8 × List UInt8
  | [] => ([], [])
  | b :: bs => if b = 10 then ([10], bs) else (b :: (readLine bs).1, (readLine bs).2)

theorem readLine_length (s : List UInt8) :
    (readLine s).1.length + (readLine s).2.length = s.length := by
  induction s with
  | nil => rfl
  | cons b bs ih =>
    rw [readLine]
    split
    · simp [Nat.add_comm]
    · simp only [List.length_cons]
      omega

/-- How a call of `read_dap_message` ends. `vec!` panics above the largest
allocation. -/
inductive Outcome (J : Type) where
  | message (json : J)
  | endOfStream
  | error (text : String)
  | panic

def lengthName : List Char :=
  ['C', 'o', 'n', 't', 'e', 'n', 't', '-', 'L', 'e', 'n', 'g', 't', 'h']

def contentLength : List Char := lengthName ++ [':']

example : String.ofList contentLength = "Content-Length:" := by decide

/-- mirrors crates/st-target-agent/src/dap_attach_handler.rs:731-741: from the
length field on. -/
def readBody (lenStr : List Char) (rest : List UInt8) : Outcome J × List UInt8 :=
  match parseU64 (trim lenStr) with
  | none => (.error "Invalid Content-Length", rest)
  | some n =>
    let rest := (readLine rest).2
    if 2 ^ 63 ≤ n.toNat then (.panic, rest)
    else if rest.length < n.toNat then (.error "Body read error: failed to fill whole buffer", [])
    else match fromSlice (rest.take n.toNat) with
      | .error e => (.error ("JSON parse error: " ++ e), rest.drop n.toNat)
      | .ok json => (.message json, rest.drop n.toNat)

/-- mirrors crates/st-target-agent/src/dap_attach_handler.rs:718-745: the
outcome and the rest of the stream. -/
def readDapMessage (stream : List UInt8) : Outcome J × List UInt8 :=
  if _ : (readLine stream).1 = [] then (.endOfStream, (readLine stream).2)
  else match fromUtf8 (readLine stream).1 with
    | none => (.error "Read error: stream did not contain valid UTF-8", (readLine stream).2)
    | some header =>
      if trim header = [] then (.endOfStream, (readLine stream).2)
      else if contentLength.isPrefixOf (trim header) then
        readBody fromSlice ((trim header).drop contentLength.length) (readLine stream).2
      else readDapMessage (readLine stream).2
termination_by stream.length
decreasing_by
  have := readLine_length stream
  have := List.length_pos_iff.mpr ‹¬(readLine stream).1 = []›
  omega

/-- The calls of the reader thread, up to the first that gives no message.
mirrors crates/st-target-agent/src/dap_attach_handler.rs:242-264 -/
inductive Reads : List UInt8 → List J → Outcome J → Prop where
  | message {stream rest : List UInt8} {json : J} {messages : List J} {ending : Outcome J} :
    readDapMessage fromSlice stream = (.message json, rest) → Reads rest messages ending →
    Reads stream (json :: messages) ending
  | stop {stream rest : List UInt8} {ending : Outcome J} :
    readDapMessage fromSlice stream = (ending, rest) → (∀ json, ending ≠ .message json) →
    Reads stream [] ending

/-! ## Frames -/

/-- A header field other than the length. -/
structure HeaderField where
  name : List Char
  value : List Char
  token : name ≠ [] ∧ ∀ c ∈ name, c ≠ ':' ∧ isWhitespace c = false
  oneLine : '\n' ∉ value
  other : name ≠ lengthName

def HeaderField.line (f : HeaderField) : List Char := f.name ++ ':' :: f.value ++ ['\r', '\n']

def lengthLine (n : Nat) : List Char := contentLength ++ ' ' :: digits n ++ ['\r', '\n']

/-- A message with its header: the fields before and behind the length. -/
structure Frame where
  before : List HeaderField
  after : List HeaderField
  body : List UInt8
  value : J
  fits : body.length < 2 ^ 63
  read : fromSlice body = .ok value

variable {fromSlice}

/-- What follows the length field, up to the body. -/
def afterLength (fields : List HeaderField) : List UInt8 :=
  utf8 (fields.flatMap HeaderField.line ++ ['\r', '\n'])

def Frame.bytes (f : Frame fromSlice) : List UInt8 :=
  utf8 (f.before.flatMap HeaderField.line ++ lengthLine f.body.length) ++
    (afterLength f.after ++ f.body)

/-- The stream of several frames. -/
def stream (frames : List (Frame fromSlice)) : List UInt8 := frames.flatMap Frame.bytes

/-- Call after call takes a frame off the stream and returns its message; then
the stream ends. -/
def Delivered : List (Frame fromSlice) → Prop
  | [] => readDapMessage fromSlice [] = (.endOfStream, [])
  | f :: frames =>
    readDapMessage fromSlice (stream (f :: frames)) = (.message f.value, stream frames) ∧
      Delivered frames

/-- A header without a length that can be read, behind any fields: an empty line,
or a length that is no number. -/
inductive Malformed : List UInt8 → Prop where
  | noLength {line : List Char} {more : List UInt8} (oneLine : '\n' ∉ line)
    (blank : trim (line ++ ['\n']) = []) : Malformed (utf8 (line ++ ['\n']) ++ more)
  | badLength {line number : List Char} {more : List UInt8} (oneLine : '\n' ∉ line)
    (length : trim (line ++ ['\n']) = contentLength ++ number)
    (bad : parseU64 (trim number) = none) : Malformed (utf8 (line ++ ['\n']) ++ more)
  | field {f : HeaderField} {rest : List UInt8} (behind : Malformed rest) :
    Malformed (utf8 f.line ++ rest)

/-- `serde_json` reads the text it writes for a message. -/
structure Writable (fromSlice : List UInt8 → Except String J) (toBytes : J → List UInt8)
    (json : J) : Prop where
  fits : (toBytes json).length < 2 ^ 63
  read : fromSlice (toBytes json) = .ok json

/-- mirrors crates/st-target-agent/src/dap_attach_handler.rs:747-754 -/
def sendDapMessage (toBytes : J → List UInt8) (json : J) : List UInt8 :=
  utf8 (contentLength ++ ' ' :: digits (toBytes json).length ++ ['\r', '\n', '\r', '\n']) ++
    toBytes json

/-! ## Lines -/

theorem readLine_lf {l : List UInt8} (h : 10 ∉ l) (rest : List UInt8) :
    readLine (l ++ 10 :: rest) = (l ++ [10], rest) := by
  induction l with
  | nil => rfl
  | cons b l ih =>
    rw [List.mem_cons, not_or] at h
    rw [List.cons_append, readLine, if_neg fun hb => h.1 hb.symm, ih h.2]
    rfl

theorem readLine_utf8 {cs : List Char} (h : '\n' ∉ cs) (rest : List UInt8) :
    readLine (utf8 (cs ++ ['\n']) ++ rest) = (utf8 (cs ++ ['\n']), rest) := by
  have hlf : utf8 ['\n'] = [10] := by rw [utf8_cons, encode_lf, utf8_nil, List.append_nil]
  rw [utf8_append, hlf, List.append_assoc, List.singleton_append]
  exact readLine_lf (lf_notMem_utf8 h) rest

/-- A call on a stream that begins with a line. -/
theorem readDapMessage_line {cs : List Char} (h : '\n' ∉ cs) (rest : List UInt8) :
    readDapMessage fromSlice (utf8 (cs ++ ['\n']) ++ rest) =
      if trim (cs ++ ['\n']) = [] then (.endOfStream, rest)
      else if contentLength.isPrefixOf (trim (cs ++ ['\n'])) then
        readBody fromSlice ((trim (cs ++ ['\n'])).drop contentLength.length) rest
      else readDapMessage fromSlice rest := by
  have hne : ¬ utf8 (cs ++ ['\n']) = [] := by
    rw [utf8_append, utf8_cons, encode_lf]
    simp
  rw [readDapMessage, readLine_utf8 h, dif_neg hne, fromUtf8_iff.mpr rfl]

/-! ## Trimming -/

theorem trimEnd_append {x w : List Char} (h : ∀ c ∈ w, isWhitespace c) :
    trimEnd (x ++ w) = trimEnd x := by
  rw [trimEnd, List.reverse_append,
    List.dropWhile_append_of_pos fun c hc => h c (List.mem_reverse.mp hc), trimEnd]

theorem trimEnd_concat (x : List Char) {c : Char} (h : isWhitespace c = false) :
    trimEnd (x ++ [c]) = x ++ [c] := by
  rw [trimEnd, List.reverse_append, List.reverse_singleton, List.singleton_append,
    List.dropWhile_cons_of_neg (by rw [h]; decide), List.reverse_cons, List.reverse_reverse]

/-- Nothing up to a character that is no blank is trimmed. -/
theorem trimEnd_keeps (x : List Char) {c : Char} (h : isWhitespace c = false) (t : List Char) :
    ∃ t', trimEnd (x ++ c :: t) = x ++ c :: t' := by
  induction t using List.reverseRecOn with
  | nil => exact ⟨[], trimEnd_concat x h⟩
  | append_singleton t d ih =>
    cases hd : isWhitespace d with
    | true =>
      obtain ⟨t', ht'⟩ := ih
      refine ⟨t', ?_⟩
      rw [← ht', ← List.cons_append, ← List.append_assoc,
        trimEnd_append fun e he => List.mem_singleton.mp he ▸ hd]
    | false =>
      refine ⟨t ++ [d], ?_⟩
      rw [← List.cons_append, ← List.append_assoc, trimEnd_concat _ hd, List.append_assoc]

theorem trimStart_keeps {c : Char} (h : isWhitespace c = false) (cs : List Char) :
    trimStart (c :: cs) = c :: cs := List.dropWhile_cons_of_neg (by rw [h]; decide)

/-! ## Header fields -/

theorem HeaderField.trim_line (f : HeaderField) : ∃ t, trim f.line = f.name ++ ':' :: t := by
  obtain ⟨hne, htoken⟩ := f.token
  obtain ⟨c, name, hname⟩ := List.exists_cons_of_ne_nil hne
  have hc : isWhitespace c = false := (htoken c (hname ▸ List.mem_cons_self)).2
  obtain ⟨t, ht⟩ := trimEnd_keeps f.name (c := ':') (by decide) (f.value ++ ['\r', '\n'])
  refine ⟨t, ?_⟩
  rw [← ht, trim, HeaderField.line, List.append_assoc, List.cons_append, hname, List.cons_append,
    trimStart_keeps hc]

theorem HeaderField.oneLine_line (f : HeaderField) :
    '\n' ∉ f.name ++ ':' :: f.value ++ ['\r'] := by
  have hname : '\n' ∉ f.name := fun h => absurd (f.token.2 _ h).2 (by decide)
  simp [hname, f.oneLine]

theorem takeWhile_colon {a t : List Char} (h : ':' ∉ a) :
    (a ++ ':' :: t).takeWhile (· ≠ ':') = a := by
  have hall : ∀ c ∈ a, decide (c ≠ ':') = true := fun c hc =>
    decide_eq_true fun hcolon => h (hcolon ▸ hc)
  rw [List.takeWhile_append_of_pos hall, List.takeWhile_cons_of_neg (by decide), List.append_nil]

theorem HeaderField.not_length (f : HeaderField) :
    contentLength.isPrefixOf (trim f.line) = false := by
  obtain ⟨t, ht⟩ := f.trim_line
  rw [ht, ← Bool.not_eq_true, List.isPrefixOf_iff_prefix]
  rintro ⟨t', h⟩
  have hname := congrArg (List.takeWhile (· ≠ ':')) h
  rw [contentLength, List.append_assoc, List.singleton_append, takeWhile_colon (by decide),
    takeWhile_colon fun hc => (f.token.2 _ hc).1 rfl] at hname
  exact f.other hname.symm

/-- A field other than the length is skipped. -/
theorem readDapMessage_field (f : HeaderField) (rest : List UInt8) :
    readDapMessage fromSlice (utf8 f.line ++ rest) = readDapMessage fromSlice rest := by
  obtain ⟨t, ht⟩ := f.trim_line
  have hline : f.line = f.name ++ ':' :: f.value ++ ['\r'] ++ ['\n'] := by
    simp [HeaderField.line]
  have hne : ¬ trim f.line = [] := by
    rw [ht]
    simp
  have hread := @readDapMessage_line _ fromSlice _ f.oneLine_line rest
  rw [← hline, if_neg hne, f.not_length, if_neg (by decide)] at hread
  exact hread

theorem readDapMessage_fields (fields : List HeaderField) (rest : List UInt8) :
    readDapMessage fromSlice (utf8 (fields.flatMap HeaderField.line) ++ rest) =
      readDapMessage fromSlice rest := by
  induction fields with
  | nil => rfl
  | cons f fields ih =>
    rw [List.flatMap_cons, utf8_append, List.append_assoc, readDapMessage_field, ih]

/-! ## The length -/

theorem isWhitespace_digit {c : Char} (h : c.isDigit = true) : isWhitespace c = false := by
  simp only [Char.isDigit, Bool.and_eq_true, decide_eq_true_eq, ge_iff_le,
    UInt32.le_iff_toNat_le] at h
  obtain ⟨hlow, hhigh⟩ := h
  have hlow : 48 ≤ c.toNat := hlow
  have hhigh : c.toNat ≤ 57 := hhigh
  unfold isWhitespace
  simp only [Bool.or_eq_false_iff, beq_eq_false_iff_ne, decide_eq_false_iff_not]
  omega

theorem trimEnd_digits (x : List Char) (n : Nat) {w : List Char} (hw : ∀ c ∈ w, isWhitespace c) :
    trimEnd (x ++ digits n ++ w) = x ++ digits n := by
  obtain ⟨ds, c, h⟩ := (List.eq_nil_or_concat (digits n)).resolve_left (digits_ne_nil n)
  have hc : isWhitespace c = false := isWhitespace_digit
    (isDigit_of_mem_digits (n := n) (by rw [h]; simp))
  rw [trimEnd_append hw, h, List.concat_eq_append, ← List.append_assoc, trimEnd_concat _ hc]

theorem trim_digits (n : Nat) : trim (' ' :: digits n) = digits n := by
  obtain ⟨c, ds, h, hc⟩ := exists_digits n
  have hstart : trimStart (' ' :: digits n) = digits n := by
    rw [trimStart, List.dropWhile_cons_of_pos (by decide), h,
      List.dropWhile_cons_of_neg (by rw [isWhitespace_digit hc]; decide)]
  have hend := trimEnd_digits [] n (w := []) (by simp)
  rw [trim, hstart]
  simpa using hend

theorem readDapMessage_length (n : Nat) (rest : List UInt8) :
    readDapMessage fromSlice (utf8 (lengthLine n) ++ rest) =
      readBody fromSlice (' ' :: digits n) rest := by
  have hdigits : '\n' ∉ digits n := fun h => absurd (isDigit_of_mem_digits h) (by decide)
  have hcs : '\n' ∉ contentLength ++ ' ' :: digits n ++ ['\r'] := by
    simp [contentLength, lengthName, hdigits]
  have htrim : trim (lengthLine n) = contentLength ++ ' ' :: digits n := by
    have hblank : ∀ c ∈ ['\r', '\n'], isWhitespace c := by simp [isWhitespace]
    have hend := trimEnd_digits (contentLength ++ [' ']) n hblank
    rw [trim, lengthLine]
    simpa [contentLength, lengthName, trimStart, isWhitespace] using hend
  have hread := @readDapMessage_line _ fromSlice _ hcs rest
  have hline : contentLength ++ ' ' :: digits n ++ ['\r'] ++ ['\n'] = lengthLine n := by
    simp [lengthLine]
  rw [hline, htrim, if_neg (by simp), if_pos (List.isPrefixOf_iff_prefix.mpr
    (List.prefix_append _ _)), List.drop_left] at hread
  exact hread

/-! ## Frames -/

/-- From the length field on. -/
theorem readBody_digits {n : Nat} (h : n < 2 ^ 63) (rest : List UInt8) :
    readBody fromSlice (' ' :: digits n) rest =
      if (readLine rest).2.length < n then
        (.error "Body read error: failed to fill whole buffer", [])
      else match fromSlice ((readLine rest).2.take n) with
        | .error e => (.error ("JSON parse error: " ++ e), (readLine rest).2.drop n)
        | .ok json => (.message json, (readLine rest).2.drop n) := by
  have hn : (UInt64.ofNat n).toNat = n := by
    rw [UInt64.toNat_ofNat', Nat.mod_eq_of_lt (by omega)]
  rw [readBody, trim_digits, parseU64_digits (by omega)]
  dsimp only
  rw [hn, if_neg (by omega)]

theorem readDapMessage_frame (f : Frame fromSlice) (more : List UInt8) :
    readDapMessage fromSlice (f.bytes ++ more) =
      readBody fromSlice (' ' :: digits f.body.length) (afterLength f.after ++ (f.body ++ more)) := by
  rw [Frame.bytes, utf8_append, List.append_assoc, List.append_assoc, readDapMessage_fields,
    List.append_assoc, readDapMessage_length]

/-- The line taken for the empty one, which is one unless a field follows. -/
theorem readLine_afterLength (fields : List HeaderField) (rest : List UInt8) :
    (readLine (afterLength fields ++ rest)).2 = match fields with
      | [] => rest
      | _ :: fields => afterLength fields ++ rest := by
  cases fields with
  | nil =>
    have hread := readLine_utf8 (show '\n' ∉ ['\r'] by decide) rest
    exact congrArg Prod.snd hread
  | cons g fields =>
    have hread := readLine_utf8 g.oneLine_line (afterLength fields ++ rest)
    have hline : g.name ++ ':' :: g.value ++ ['\r'] ++ ['\n'] = g.line := by
      simp [HeaderField.line]
    rw [hline] at hread
    rw [afterLength, List.flatMap_cons, List.append_assoc, utf8_append, List.append_assoc]
    exact congrArg Prod.snd hread

theorem length_afterLength_pos (fields : List HeaderField) : 0 < (afterLength fields).length := by
  rw [afterLength, utf8_append, List.length_append]
  have : (utf8 ['\r', '\n']).length = 2 := by decide
  omega

/-- A frame is taken off the stream exactly when no field follows its length. -/
theorem frame_iff (f : Frame fromSlice) (more : List UInt8) :
    readDapMessage fromSlice (f.bytes ++ more) = (.message f.value, more) ↔ f.after = [] := by
  rw [readDapMessage_frame, readBody_digits f.fits, readLine_afterLength]
  cases hafter : f.after with
  | nil =>
    dsimp only
    rw [if_neg (by simp), List.take_left, List.drop_left, f.read]
    simp
  | cons g fields =>
    dsimp only
    -- what is left is longer than what follows the frame
    refine iff_of_false (fun h => ?_) (List.cons_ne_nil g fields)
    have hpos := length_afterLength_pos fields
    have hlen : (afterLength fields ++ (f.body ++ more)).length =
        (afterLength fields).length + (f.body.length + more.length) := by
      rw [List.length_append, List.length_append]
    rw [if_neg (by omega)] at h
    have hrest := congrArg (fun r => r.2.length) h
    have hdrop := List.length_drop (i := f.body.length) (l := afterLength fields ++ (f.body ++ more))
    split at hrest <;> simp only at hrest <;> omega

theorem readDapMessage_nil : readDapMessage fromSlice [] = (.endOfStream, []) := by
  rw [readDapMessage, dif_pos (by rfl)]
  rfl

theorem stream_cons (f : Frame fromSlice) (frames : List (Frame fromSlice)) :
    stream (f :: frames) = f.bytes ++ stream frames := List.flatMap_cons

theorem delivered_iff (frames : List (Frame fromSlice)) :
    Delivered frames ↔ ∀ f ∈ frames, f.after = [] := by
  induction frames with
  | nil => exact iff_of_true readDapMessage_nil (by simp)
  | cons f frames ih => rw [Delivered, stream_cons, frame_iff, List.forall_mem_cons, ih]

/-- The reader thread gets the messages of frames, and goes on behind them. -/
theorem Reads.frames {frames : List (Frame fromSlice)} (h : ∀ f ∈ frames, f.after = [])
    {behind : List UInt8} {ending : Outcome J} (hbehind : Reads fromSlice behind [] ending) :
    Reads fromSlice (stream frames ++ behind) (frames.map (·.value)) ending := by
  induction frames with
  | nil => exact hbehind
  | cons f frames ih =>
    obtain ⟨hf, hframes⟩ := List.forall_mem_cons.mp h
    rw [stream_cons, List.append_assoc]
    exact .message ((frame_iff f _).mpr hf) (ih hframes)

/-! ## Malformed headers -/

/-- A malformed header gives no message. -/
theorem Malformed.no_message {s : List UInt8} (h : Malformed s) (json : J) :
    (readDapMessage fromSlice s).1 ≠ .message json := by
  induction h with
  | noLength oneLine blank =>
    rw [readDapMessage_line oneLine, if_pos blank]
    exact nofun
  | badLength oneLine length bad =>
    rw [readDapMessage_line oneLine, length, if_neg (by simp [contentLength]), if_pos
      (List.isPrefixOf_iff_prefix.mpr (List.prefix_append _ _)), List.drop_left, readBody, bad]
    exact nofun
  | field _ ih =>
    rw [readDapMessage_field]
    exact ih

theorem Malformed.stops {s : List UInt8} (h : Malformed s) :
    Reads fromSlice s [] (readDapMessage fromSlice s).1 :=
  .stop rfl fun json => h.no_message json

/-! ## Sent messages -/

/-- What is sent is a frame with the length alone. -/
def Frame.sent {toBytes : J → List UInt8} {json : J} (h : Writable fromSlice toBytes json) :
    Frame fromSlice := ⟨[], [], toBytes json, json, h.fits, h.read⟩

theorem sent_bytes {toBytes : J → List UInt8} {json : J} (h : Writable fromSlice toBytes json) :
    (Frame.sent h).bytes = sendDapMessage toBytes json := by
  rw [Frame.bytes, sendDapMessage, ← List.append_assoc]
  congr 1
  rw [afterLength, ← utf8_append]
  simp [Frame.sent, lengthLine]

/-! ## The reader thread -/

/-- **Framing.** Call after call takes one frame off the stream exactly when no
field follows a length; then the reader thread gets all messages and the end of
the stream, also of messages that the other direction has sent; behind frames a
malformed header ends it, and nothing is read from what follows. -/
theorem framing_iff (fromSlice : List UInt8 → Except String J) (toBytes : J → List UInt8)
    (frames : List (Frame fromSlice)) :
    (Delivered frames ↔ ∀ f ∈ frames, f.after = []) ∧
    (Delivered frames → Reads fromSlice (stream frames) (frames.map (·.value)) .endOfStream) ∧
    (∀ json more, Writable fromSlice toBytes json →
      readDapMessage fromSlice (sendDapMessage toBytes json ++ more) = (.message json, more)) ∧
    ∀ s, Malformed s → Delivered frames →
      Reads fromSlice (stream frames ++ s) (frames.map (·.value)) (readDapMessage fromSlice s).1 := by
  refine ⟨delivered_iff frames, fun h => ?_, fun json more h => ?_, fun s hs h => ?_⟩
  · have hnil : Reads fromSlice [] [] .endOfStream := .stop readDapMessage_nil fun _ => nofun
    have hreads := Reads.frames ((delivered_iff frames).mp h) hnil
    rwa [List.append_nil] at hreads
  · rw [← sent_bytes h]
    exact (frame_iff (Frame.sent h) more).mpr rfl
  · exact Reads.frames ((delivered_iff frames).mp h) hs.stops

/-- `{}`, and no other text. -/
def braces (bs : List UInt8) : Except String Unit :=
  if bs = [123, 125] then .ok () else .error "expected value"

def contentType : HeaderField where
  name := ['T', 'y', 'p', 'e']
  value := []
  token := by simp [isWhitespace]
  oneLine := by decide
  other := by decide

/-- A field behind the length. -/
def typedFrame : Frame braces := ⟨[], [contentType], [123, 125], (), by decide, by decide⟩

theorem readDapMessage_typed : readDapMessage braces (stream [typedFrame]) =
    (.error "JSON parse error: expected value", [123, 125]) := by
  have hrest : afterLength [] ++ (typedFrame.body ++ []) = [13, 10, 123, 125] := by decide
  have hline : (readLine (afterLength typedFrame.after ++ (typedFrame.body ++ []))).2 =
      [13, 10, 123, 125] := (readLine_afterLength [contentType] _).trans hrest
  rw [stream_cons, readDapMessage_frame, readBody_digits typedFrame.fits]
  show (if (readLine (afterLength typedFrame.after ++ (typedFrame.body ++ []))).2.length < 2
    then _ else _) = _
  rw [hline]
  rfl

/-- `{}` with a field behind its length is not read. -/
theorem field_behind_lost :
    ¬ ∀ (J : Type) (fromSlice : List UInt8 → Except String J) (frames : List (Frame fromSlice)),
      Reads fromSlice (stream frames) (frames.map (·.value)) .endOfStream := by
  intro h
  cases h Unit braces [typedFrame] with
  | message hread _ =>
    rw [readDapMessage_typed] at hread
    cases hread

end RustPlc.Target.Framing
