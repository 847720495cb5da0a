import Http2Server.Segmentation

/-!
# Bytes left over in the buffer

`doRequest` overwrites its buffer from the start and parses in place, so there is
always memory behind the bytes read. The frames do not depend on it, though an empty
padded frame or a cut header at the end is read past; the preface does.

- `toFramesInPlace_eq`: parsing in place.
- `sameRead_iff`: two clients that differ in the bytes left over.
-/

namespace Http2Server

open FrameHandler

namespace Frame

/-! ## Parsing in place -/

/-- `decode` with the memory `behind` the region. -/
def decodeInPlace (behind : Bytes) (f : Frame) : Bytes → Decode
  | b0 :: b1 :: b2 :: b3 :: b4 :: b5 :: b6 :: b7 :: b8 :: p =>
    let size := bigEndian24 b0 b1 b2
    if size > 0x00ffffff || p.length < size then .rejected f
    else
      decodeBody { f with type := b3, flags := b4, sid := bigEndian31 b5 b6 b7 b8 }
        ⟨p ++ behind, size, 0⟩
  | _ => .rejected f

/-- The size of a frame is read from memory also where the region ends before it. -/
def toFramesLoopInPlace (behind : Bytes) : Nat → Bytes → Option (List Frame)
  | _, [] => some []
  | 0, _ :: _ => none
  | fuel + 1, b :: rest =>
    let curr := b :: rest ++ behind
    let size := bigEndian24 (curr.getD 0 0) (curr.getD 1 0) (curr.getD 2 0)
    match decodeInPlace behind {} (b :: rest) with
    | .threw => none
    | .accepted f | .rejected f =>
      (toFramesLoopInPlace behind fuel ((b :: rest).drop (9 + size))).map (f :: ·)

def toFramesInPlace (behind bytes : Bytes) : Option (List Frame) :=
  toFramesLoopInPlace behind bytes.length bytes

/-- The same position with more memory behind it. -/
def Body.onto (b : Body) (behind : Bytes) : Body := { b with p := b.p ++ behind }

theorem stripPadding_onto (f : Frame) {b : Body} (behind : Bytes)
    (filled : f.isPadded = true → b.p ≠ []) :
    f.stripPadding (b.onto behind) = (f.stripPadding b).map (·.onto behind) := by
  unfold stripPadding
  split
  · next padded =>
    obtain ⟨first, rest, at_p⟩ := List.exists_cons_of_ne_nil (filled padded)
    simp only [Body.onto, at_p, List.cons_append, List.headD_cons, List.tail_cons]
    split <;> rfl
  · rfl

/-- The priority block is looked for where there are bytes enough. -/
theorem stripPriority_onto (f : Frame) {b : Body} (behind : Bytes)
    (inside : b.payloadSize ≤ b.p.length) :
    f.stripPriority (b.onto behind) =
      ((f.stripPriority b).1, (f.stripPriority b).2.map (·.onto behind)) := by
  unfold stripPriority
  split
  · by_cases room : b.payloadSize < 5 + b.headerStart
    · simp only [Body.onto, room, ↓reduceIte, Option.map_none]
    · have at_index (i : Nat) (low : i < 5) : (b.p ++ behind).getD i 0 = b.p.getD i 0 :=
        List.getD_append b.p behind 0 i (by omega)
      have weight : ¬ ((decide ((b.p.getD 4 0).toNat + 1 < 1) ||
          decide ((b.p.getD 4 0).toNat + 1 > 256)) = true) := by
        have byte := (b.p.getD 4 0).toNat_lt
        simp only [Bool.or_eq_true, decide_eq_true_eq]
        omega
      simp only [Body.onto, room, ↓reduceIte, at_index, Nat.reduceLT, if_neg weight,
        Option.map_some]
      rw [List.drop_append_of_le_length (by omega)]
  · rfl

theorem stripPadding_inside {f : Frame} {b b' : Body} (h : f.stripPadding b = some b')
    (filled : f.isPadded = true → 0 < b.payloadSize) (inside : b.payloadSize ≤ b.p.length)
    (small : b.payloadSize < 2 ^ 64) : b'.payloadSize ≤ b'.p.length := by
  unfold stripPadding at h
  split at h
  · next padded =>
    have pos := filled padded
    rw [sizeSub_of_le (show 1 ≤ b.payloadSize by omega) small] at h
    dsimp only at h
    split at h
    · cases h
    · next room =>
      obtain rfl := Option.some.inj h
      dsimp only
      rw [sizeSub_of_le (by omega) small, List.length_tail]
      omega
  · obtain rfl := Option.some.inj h
    exact inside

theorem stripPriority_inside {f : Frame} {b b' : Body} (h : (f.stripPriority b).2 = some b')
    (inside : b.payloadSize ≤ b.p.length) (small : b.payloadSize < 2 ^ 64) :
    b'.payloadSize ≤ b'.p.length := by
  obtain ⟨none, _⟩ | same | ⟨room, moved⟩ := stripPriority_cases f b
  · rw [none] at h
    cases h
  · rw [same] at h
    obtain rfl := Option.some.inj h
    exact inside
  · rw [moved] at h
    obtain rfl := Option.some.inj h
    dsimp only
    rw [sizeSub_of_le (by omega) small, List.length_drop]
    omega

/-- **A body.** It is decoded alike whatever stands behind it. The pad length of an
empty padded frame is read from there, and the sizes wrap whatever it is. -/
theorem decodeBody_onto (f : Frame) {p behind : Bytes} {size : Nat} (inside : size ≤ p.length)
    (short : (p ++ behind).length < 2 ^ 63) :
    decodeBody f ⟨p ++ behind, size, 0⟩ = decodeBody f ⟨p, size, 0⟩ := by
  have sum : (p ++ behind).length = p.length + behind.length := List.length_append
  by_cases empty : size = 0 ∧ f.isPadded = true
  · rw [(decodeBody_threw_iff f (by omega) short).mpr empty,
      (decodeBody_threw_iff f inside (by omega)).mpr empty]
  · have filled (padded : f.isPadded = true) : 0 < size := by
      by_contra zero
      exact empty ⟨by omega, padded⟩
    have padding := stripPadding_onto f (b := ⟨p, size, 0⟩) behind fun padded none => by
      have some := filled padded
      rw [show p = [] from none] at inside
      exact absurd inside (by simpa using Nat.ne_of_gt some)
    unfold Body.onto at padding
    unfold decodeBody
    rw [padding]
    cases stripped : f.stripPadding ⟨p, size, 0⟩ with
    | none => rfl
    | some b =>
      have within := stripPadding_inside stripped filled inside
        (show size < 2 ^ 64 by omega)
      have less := length_stripPadding stripped
      have priority := stripPriority_onto f behind within
      unfold Body.onto at priority
      simp only [Option.map_some]
      rw [priority]
      rcases found : f.stripPriority b with ⟨g, _ | b'⟩
      · rfl
      · have last := stripPriority_inside (congrArg Prod.snd found) within
          (by dsimp only at less; omega)
        simp only [Option.map_some, List.length_append]
        rw [if_neg (show ¬ b'.payloadSize > b'.p.length + behind.length by omega),
          if_neg (show ¬ b'.payloadSize > b'.p.length by omega),
          List.take_append_of_le_length last]

theorem decodeInPlace_eq {behind bytes : Bytes} (short : (bytes ++ behind).length < 2 ^ 63) :
    decodeInPlace behind {} bytes = decode {} bytes := by
  obtain few | ⟨b0, b1, b2, type, flags, b5, b6, b7, b8, p, rfl⟩ := header_cases bytes
  · rw [decode_short {} few]
    unfold decodeInPlace
    split
    · simp only [List.length_cons] at few
      omega
    · rfl
  · simp only [List.cons_append, List.length_cons] at short
    simp only [decodeInPlace, decode]
    split
    · rfl
    · next whole =>
      simp only [Bool.or_eq_true, decide_eq_true_eq, not_or, Nat.not_lt] at whole
      exact decodeBody_onto _ whole.2 (by omega)

/-- Three bytes of size are there, or the loop ends whatever they are. -/
theorem drop_inPlace (bytes behind : Bytes) :
    bytes.drop (9 + bigEndian24 ((bytes ++ behind).getD 0 0) ((bytes ++ behind).getD 1 0)
        ((bytes ++ behind).getD 2 0)) =
      bytes.drop (9 + bigEndian24 (bytes.getD 0 0) (bytes.getD 1 0) (bytes.getD 2 0)) := by
  by_cases three : bytes.length < 3
  · rw [List.drop_eq_nil_of_le (by omega), List.drop_eq_nil_of_le (by omega)]
  · have at_index (i : Nat) (low : i < 3) : (bytes ++ behind).getD i 0 = bytes.getD i 0 :=
      List.getD_append bytes behind 0 i (by omega)
    rw [at_index 0 (by omega), at_index 1 (by omega), at_index 2 (by omega)]

/-- **Frames.** The memory behind a region has no part in its frames. -/
theorem toFramesInPlace_eq {behind bytes : Bytes} (short : (bytes ++ behind).length < 2 ^ 63) :
    toFramesInPlace behind bytes = toFrames bytes := by
  unfold toFramesInPlace toFrames
  generalize bytes.length = fuel
  induction fuel generalizing bytes with
  | zero => cases bytes <;> rfl
  | succ fuel ih =>
    cases bytes with
    | nil => rfl
    | cons b rest =>
      have next := drop_inPlace (b :: rest) behind
      have shorter : ((b :: rest).drop (9 + bigEndian24 ((b :: rest).getD 0 0)
          ((b :: rest).getD 1 0) ((b :: rest).getD 2 0)) ++ behind).length < 2 ^ 63 := by
        rw [List.length_append] at short ⊢
        rw [List.length_drop]
        omega
      simp only [toFramesLoopInPlace, toFramesLoop]
      rw [decodeInPlace_eq short, next]
      cases decode {} (b :: rest) with
      | threw => rfl
      | accepted f => exact congrArg (Option.map (f :: ·)) (ih shorter)
      | rejected f => exact congrArg (Option.map (f :: ·)) (ih shorter)

end Frame

/-! ## One read -/

/-- `handleBuffer`, parsing in place. -/
def handleBufferInPlace (env : Env) (s : Session) (recvBuffer : Bytes) (bytesRead : Nat) :
    Exit × Client :=
  match Frame.toFramesInPlace (recvBuffer.drop bytesRead) (recvBuffer.take bytesRead) with
  | none => (.threw, ⟨s, recvBuffer⟩)
  | some frames =>
    let (e, s) := handleFrames env frames s
    (e, ⟨s, recvBuffer⟩)

/-- `doRequest`, parsing in place. -/
def doRequestInPlace (env : Env) (c : Client) (read : ReadResult) : Exit × Client :=
  let recvBuffer := resize c.recvBuffer bufferSize
  let s := { c.session with state := .idle }
  match read with
  | .failed errno =>
    (.returned true, ⟨if errno = eagain then s else { s with errorCode := errno }, recvBuffer⟩)
  | .closed => (.returned true, ⟨{ s with fdState := .closed }, recvBuffer⟩)
  | .bytes data =>
    let recvBuffer := data ++ recvBuffer.drop data.length
    if prefaceStr.isPrefixOf recvBuffer then
      match applySettings env s with
      | (.returned _, s) =>
        handleBufferInPlace env s (recvBuffer.drop prefaceStr.length)
          (data.length - prefaceStr.length)
      | (e, s) => (e, ⟨s, recvBuffer⟩)
    else handleBufferInPlace env s recvBuffer data.length

theorem handleBufferInPlace_eq (env : Env) (s : Session) {recvBuffer : Bytes} (bytesRead : Nat)
    (short : recvBuffer.length < 2 ^ 63) :
    handleBufferInPlace env s recvBuffer bytesRead = handleBuffer env s recvBuffer bytesRead := by
  have parsed : Frame.toFramesInPlace (recvBuffer.drop bytesRead) (recvBuffer.take bytesRead) =
      Frame.toFrames (recvBuffer.take bytesRead) :=
    Frame.toFramesInPlace_eq (by rwa [List.take_append_drop])
  unfold handleBufferInPlace handleBuffer
  cases found : Frame.toFrames (recvBuffer.take bytesRead) with
  | none => simp only [parsed, found]
  | some frames =>
    rcases handled : handleFrames env frames s with ⟨e, s'⟩
    simp only [parsed, found, handled]

theorem length_resize (buffer : Bytes) (n : Nat) : (resize buffer n).length = n := by
  rw [resize, List.length_append, List.length_take, List.length_replicate]
  omega

/-- The memory behind the bytes read makes no difference to the frames of a read. -/
theorem doRequestInPlace_eq (env : Env) (c : Client) {read : ReadResult} (fits : read.Fits) :
    doRequestInPlace env c read = doRequest env c read := by
  cases read with
  | failed errno => rfl
  | closed => rfl
  | bytes data =>
    have bound : data.length ≤ bufferSize := fits
    have size : bufferSize < 2 ^ 62 := by decide
    have short : (data ++ (resize c.recvBuffer bufferSize).drop data.length).length < 2 ^ 63 := by
      rw [List.length_append, List.length_drop, length_resize]
      omega
    simp only [doRequestInPlace, doRequest]
    split
    · have shorter : ((data ++ (resize c.recvBuffer bufferSize).drop data.length).drop
          prefaceStr.length).length < 2 ^ 63 := by
        rw [List.length_drop]
        omega
      obtain ⟨ok, s', sent, _⟩ := applySettings_returns env { c.session with state := .idle }
      simp only [sent, handleBufferInPlace_eq env _ _ shorter]
    · exact handleBufferInPlace_eq env _ _ short

/-- What a read does, but for the buffer. -/
def effect (env : Env) (c : Client) (read : ReadResult) : Exit × Session :=
  ((doRequestInPlace env c read).1, (doRequestInPlace env c read).2.session)

/-- The frames of a region, handled. -/
def handleRegion (env : Env) (region : Session × Bytes) : Exit × Session :=
  match Frame.toFrames region.2 with
  | none => (.threw, region.1)
  | some frames => handleFrames env frames region.1

theorem effect_bytes (env : Env) (c : Client) {data : Bytes} (fits : data.length ≤ bufferSize) :
    effect env c (.bytes data) = handleRegion env (region env c data) := by
  obtain ⟨buffer, done⟩ := doRequest_bytes env c data
  have inPlace := doRequestInPlace_eq env c (show (ReadResult.bytes data).Fits from fits)
  rw [effect, inPlace, done, handleRegion]
  cases Frame.toFrames (region env c data).2 <;> rfl

/-! ## Two clients -/

/-- The bytes read are a beginning of the preface, and bytes left over from earlier
reads stand behind them and complete it. -/
def Completed (c : Client) (data : Bytes) : Prop :=
  data.length < prefaceStr.length ∧
    prefaceStr <+: data ++ (resize c.recvBuffer bufferSize).drop data.length

instance (c : Client) (data : Bytes) : Decidable (Completed c data) :=
  inferInstanceAs (Decidable (_ ∧ _))

/-- A read that gives as many bytes as the preface has alone decides whether it is there. -/
theorem region_eq {env : Env} {c c' : Client} {data : Bytes} (same : c.session = c'.session)
    (alike : Completed c data ↔ Completed c' data) : region env c data = region env c' data := by
  unfold region
  simp only [List.isPrefixOf_iff_prefix, same]
  by_cases few : data.length < prefaceStr.length
  · unfold Completed at alike
    rw [and_iff_right few, and_iff_right few] at alike
    simp only [alike]
  · have whole (left : Bytes) : prefaceStr <+: data ++ left ↔ prefaceStr <+: data := by
      constructor
      · intro found
        exact List.prefix_of_prefix_length_le found (List.prefix_append data left) (by omega)
      · exact fun found => found.trans (List.prefix_append data left)
    simp only [whole]

theorem applySettings_sent (env : Env) (s : Session) :
    (applySettings env s).2.sent.length = s.sent.length + 1 := by
  rw [applySettings, sendFrame, Frame.encode_small (by rw [Settings.encode_default]; decide)]
  exact List.length_append

/-- The server's settings are sent and no frame is handled. -/
theorem completed_effect (env : Env) {c : Client} {data : Bytes} (completed : Completed c data) :
    (handleRegion env (region env c data)).2.handed = c.session.handed ∧
      (handleRegion env (region env c data)).2.sent.length = c.session.sent.length + 1 := by
  obtain ⟨few, found⟩ := completed
  obtain ⟨ok, s', sent, within⟩ := applySettings_returns env { c.session with state := .idle }
  have count := applySettings_sent env { c.session with state := .idle }
  have at_preface : region env c data = (s', []) := by
    unfold region
    rw [if_pos (List.isPrefixOf_iff_prefix.mpr found), sent,
      List.drop_eq_nil_of_le (Nat.le_of_lt few)]
  rw [sent] at count
  rw [at_preface]
  exact ⟨within.handed, count⟩

/-- A default frame is handled, or with no bytes at all nothing is sent. -/
theorem cut_effect (env : Env) {c : Client} {data : Bytes} (front : data <+: prefaceStr)
    (few : data.length < prefaceStr.length) (cut : ¬ Completed c data) :
    (handleRegion env (region env c data)).2.handed = c.session.handed ++ [({} : Frame)] ∨
      (handleRegion env (region env c data)).2.sent.length = c.session.sent.length := by
  have other : ¬ prefaceStr.isPrefixOf
      (data ++ (resize c.recvBuffer bufferSize).drop data.length) = true := by
    rw [List.isPrefixOf_iff_prefix]
    exact fun found => cut ⟨few, found⟩
  have at_start : region env c data = ({ c.session with state := .idle }, data) := if_neg other
  rw [at_start]
  by_cases some : data = []
  · rw [some]
    exact .inr rfl
  · obtain ⟨left, split⟩ := front
    have notAll : left ≠ [] := by
      rintro rfl
      rw [List.append_nil] at split
      rw [split] at few
      exact Nat.lt_irrefl _ few
    left
    rw [handleRegion, Segmentation.toFrames_cutPreface split.symm some notAll]
    have first := handleFrame_handed env { c.session with state := .idle } {}
    rcases handled : handleFrame env { c.session with state := .idle } {} with ⟨_ | _ | _, s'⟩ <;>
      rw [handled] at first <;> simp only [handleFrames, handled] <;> exact first

theorem effect_ne {env : Env} {c c' : Client} {data : Bytes} (same : c.session = c'.session)
    (fits : data.length ≤ bufferSize) (completed : Completed c data)
    (cut : ¬ Completed c' data) : effect env c (.bytes data) ≠ effect env c' (.bytes data) := by
  rw [effect_bytes env c fits, effect_bytes env c' fits]
  intro equal
  have front : data <+: prefaceStr :=
    List.prefix_of_prefix_length_le (List.prefix_append data _) completed.2
      (Nat.le_of_lt completed.1)
  obtain ⟨handed, sent⟩ := completed_effect env completed
  rw [equal, same] at handed sent
  obtain more | fewer := cut_effect env front completed.1 cut
  · rw [more] at handed
    simp at handed
  · omega

/-- **Left over.** Two clients that differ in their buffers alone do the same on a
read exactly where both have the preface completed by bytes left over, or neither. -/
theorem sameRead_iff (env : Env) {c c' : Client} {read : ReadResult}
    (same : c.session = c'.session) (fits : read.Fits) :
    effect env c read = effect env c' read ↔
      ∀ data, read = .bytes data → (Completed c data ↔ Completed c' data) := by
  cases read with
  | failed errno => simp [effect, doRequestInPlace, same]
  | closed => simp [effect, doRequestInPlace, same]
  | bytes data =>
    simp only [ReadResult.bytes.injEq, forall_eq']
    constructor
    · intro equal
      constructor
      · intro completed
        by_contra cut
        exact effect_ne same fits completed cut equal
      · intro completed
        by_contra cut
        exact effect_ne same.symm fits completed cut equal.symm
    · intro alike
      rw [effect_bytes env c fits, effect_bytes env c' fits, region_eq same alike]

/-- A read of the whole preface, on a new client and on one with other bytes left over. -/
theorem sameRead_preface :
    effect siteEnv {} (.bytes prefaceStr) =
      effect siteEnv { recvBuffer := List.replicate 4096 0xff } (.bytes prefaceStr) := by
  have fits : (ReadResult.bytes prefaceStr).Fits := by
    show prefaceStr.length ≤ bufferSize
    decide
  refine (sameRead_iff siteEnv rfl fits).mpr fun data read => ?_
  obtain rfl := ReadResult.bytes.inj read
  exact iff_of_false (fun h => Nat.lt_irrefl _ h.1) fun h => Nat.lt_irrefl _ h.1

/-! ## Two connections -/

/-- A read that is no frame, on a new client. -/
def afterJunk (junk : Bytes) : Client :=
  ⟨(handleFrames siteEnv [{}] { state := .idle }).2,
    junk ++ (resize (List.replicate bufferSize 0) bufferSize).drop junk.length⟩

theorem reached_afterJunk {junk : Bytes} (fits : junk.length ≤ bufferSize)
    (frames : Frame.toFrames junk = some [{}]) (other : ¬ junk.head? = some 0x50) (some : junk ≠ []) :
    Reached (afterJunk junk) := by
  have read : doRequest siteEnv {} (.bytes junk) = (.returned true, afterJunk junk) := by
    obtain ⟨first, rest, rfl⟩ := List.exists_cons_of_ne_nil some
    have noPreface (left : Bytes) : ¬ prefaceStr.isPrefixOf (first :: rest ++ left) = true := by
      rw [List.isPrefixOf_iff_prefix]
      intro found
      obtain ⟨same, _⟩ := List.cons_prefix_cons.mp found
      exact other (congrArg Option.some same.symm)
    simp only [doRequest, noPreface, Bool.false_eq_true, ↓reduceIte, handleBuffer, List.take_left,
      frames]
    rfl
  exact .read .new (show (ReadResult.bytes junk).Fits from fits) read

/-- After the junk of one connection stands the end of the preface, and after that of
the other nothing. Its beginning is then all that is read. -/
theorem sameRead_differs :
    ¬ ∀ (c c' : Client) (read : ReadResult), Reached c → Reached c' → c.session = c'.session →
      read.Fits → effect siteEnv c read = effect siteEnv c' read := by
  intro all
  have first : Reached (afterJunk ([0xff, 0xff, 0xff] ++ prefaceStr.drop 3)) :=
    reached_afterJunk (by decide) (by decide +kernel) (by decide) (by simp)
  have second : Reached (afterJunk [0xff, 0xff, 0xff]) :=
    reached_afterJunk (by decide) (by decide +kernel) (by decide) (by simp)
  have fits : (prefaceStr.take 3).length ≤ bufferSize := by decide
  have completed : Completed (afterJunk ([0xff, 0xff, 0xff] ++ prefaceStr.drop 3))
      (prefaceStr.take 3) := by decide +kernel
  have cut : ¬ Completed (afterJunk [0xff, 0xff, 0xff]) (prefaceStr.take 3) := by decide +kernel
  have same : (afterJunk ([0xff, 0xff, 0xff] ++ prefaceStr.drop 3)).session =
      (afterJunk [0xff, 0xff, 0xff]).session := rfl
  have equal := all _ _ (.bytes (prefaceStr.take 3)) first second same fits
  exact effect_ne same fits completed cut equal

end Http2Server
