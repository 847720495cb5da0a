import Http2Server.Client
import Http2Server.Wire

/-!
# Streams in pieces

The bytes of a connection reach `doRequest` in whatever pieces `SSL_read`
returns, and nothing is carried from one piece to the next. `segmentation_iff`
says which pieces have the client's frames handed on.
-/

namespace Http2Server

open FrameHandler Lib.Blocks

namespace Segmentation

/-- The first piece is the preface and whole frames, every other one whole
frames. -/
def Aligned (frames : List WireFrame) (chunks : List Bytes) : Prop :=
  ∃ region rest, chunks = (prefaceStr ++ region) :: rest ∧
    OnBoundaries WireFrame.bytes frames (region :: rest)

/-- Handling the frames does not end the process before the last of them. -/
def Survives (env : Env) (s : Session) (frames : List WireFrame) : Prop :=
  (handleFrames env (frames.dropLast.map WireFrame.frame) s).1 = .returned true

instance (env : Env) (s : Session) (frames : List WireFrame) : Decidable (Survives env s frames) :=
  inferInstanceAs (Decidable (_ = _))

/-- The session in which the first frame is handled. -/
def started (env : Env) : Session := (applySettings env { state := .idle }).2

/-- A frame longer than a read is in no aligned stream. -/
theorem Aligned.short {frames : List WireFrame} {chunks : List Bytes} (h : Aligned frames chunks)
    (sizes : ∀ c ∈ chunks, c.length ≤ bufferSize) : ∀ f ∈ frames, f.bytes.length ≤ bufferSize := by
  obtain ⟨region, rest, rfl, groups, rfl, texts⟩ := h
  intro f hf
  obtain ⟨group, hgroup, inside⟩ := List.mem_flatten.mp hf
  have text : group.flatMap WireFrame.bytes ∈ region :: rest :=
    texts ▸ List.mem_map_of_mem hgroup
  have within : f.bytes.length ≤ (group.flatMap WireFrame.bytes).length := by
    obtain ⟨before, behind, rfl⟩ := List.append_of_mem inside
    simp only [List.flatMap_append, List.flatMap_cons, List.length_append]
    omega
  rcases List.mem_cons.mp text with first | later
  · have size := sizes _ (List.mem_cons_self ..)
    rw [List.length_append] at size
    rw [first] at within
    omega
  · exact within.trans (sizes _ (List.mem_cons_of_mem _ later))

/-! ## One read -/

/-- The calls after one that has come to `r`. -/
def after (env : Env) (rest : List ReadResult) : Exit × Client → Exit × Client
  | (.returned _, c) => doRequests env rest c
  | (e, c) => (e, c)

theorem doRequests_cons (env : Env) (c : Client) (read : ReadResult) (rest : List ReadResult) :
    doRequests env (read :: rest) c = after env rest (doRequest env c read) := by
  rw [doRequests]
  rcases doRequest env c read with ⟨_ | _ | _, _⟩ <;> rfl

theorem handleBuffer_extends (env : Env) (s : Session) (buffer : Bytes) (n : Nat) :
    s.handed <+: (handleBuffer env s buffer n).2.session.handed := by
  unfold handleBuffer
  split
  · exact List.prefix_refl _
  · next frames _ =>
    obtain ⟨handed, log, _⟩ := handleFrames_handed env s frames
    exact ⟨handed, log.symm⟩

theorem doRequest_extends (env : Env) (c : Client) (read : ReadResult) :
    c.session.handed <+: (doRequest env c read).2.session.handed := by
  unfold doRequest
  cases read with
  | failed errno =>
    dsimp only
    split <;> exact List.prefix_refl _
  | closed => exact List.prefix_refl _
  | bytes data =>
    dsimp only
    split
    · obtain ⟨ok, s', sent, within⟩ := applySettings_returns env { c.session with state := .idle }
      rw [sent, ← show s'.handed = c.session.handed from within.handed]
      exact handleBuffer_extends env s' _ _
    · exact handleBuffer_extends env { c.session with state := .idle } _ _

theorem doRequests_extends (env : Env) (reads : List ReadResult) (c : Client) :
    c.session.handed <+: (doRequests env reads c).2.session.handed := by
  induction reads generalizing c with
  | nil => exact List.prefix_refl _
  | cons read rest ih =>
    have first := doRequest_extends env c read
    rw [doRequests_cons]
    rcases read : doRequest env c read with ⟨_ | _ | _, c'⟩ <;> rw [read] at first
    · exact first.trans (ih c')
    · exact first
    · exact first

/-- What a region's frames add to the log: those handled, and whatever the later
reads add if handling them all returns. -/
theorem region_handed (env : Env) (s : Session) {buffer : Bytes} {n : Nat} {frames : List Frame}
    (cut : Frame.toFrames (buffer.take n) = some frames) (rest : List ReadResult) :
    ∃ handed more, (after env rest (handleBuffer env s buffer n)).2.session.handed =
        s.handed ++ (handed ++ more) ∧ handed <+: frames ∧ (handed = frames ∨ more = []) ∧
      (handed = frames ↔ (handleFrames env frames.dropLast s).1 = .returned true) := by
  obtain ⟨handed, log, pre, all, last⟩ := handleFrames_handed env s frames
  simp only [handleBuffer, cut]
  rcases done : handleFrames env frames s with ⟨e, s'⟩
  rw [done] at log all
  cases e with
  | returned ok =>
    obtain rfl := handleFrames_returned (congrArg Prod.fst done)
    obtain ⟨more, extended⟩ := doRequests_extends env rest ⟨s', buffer⟩
    refine ⟨handed, more, ?_, pre, .inl (all rfl), last⟩
    rw [← List.append_assoc, ← log]
    exact extended.symm
  | threw => exact ⟨handed, [], by rw [List.append_nil]; exact log, pre, .inr rfl, last⟩
  | aborted => exact ⟨handed, [], by rw [List.append_nil]; exact log, pre, .inr rfl, last⟩

/-- A wrong frame in a region is in the log for good, or nothing comes after it. -/
theorem region_wrong {env : Env} {s : Session} {buffer : Bytes} {n : Nat}
    {frames expected : List Frame} (cut : Frame.toFrames (buffer.take n) = some frames)
    (rest : List ReadResult) {i : Nat} {f g : Frame} (hf : frames[i]? = some f)
    (hg : expected[i]? = some g) (wrong : f ≠ g) :
    (after env rest (handleBuffer env s buffer n)).2.session.handed ≠ s.handed ++ expected := by
  obtain ⟨handed, more, log, pre, whole, _⟩ := region_handed env s cut rest
  intro same
  rw [log, List.append_cancel_left_eq] at same
  apply wrong
  rcases whole with rfl | rfl
  · have within := (List.getElem?_eq_some_iff.mp hf).1
    rw [← same, List.getElem?_append_left within, hf] at hg
    exact Option.some.inj hg
  · rw [List.append_nil] at same
    obtain ⟨left, rfl⟩ := pre
    have within := (List.getElem?_eq_some_iff.mp hg).1
    rw [same, List.getElem?_append_left within, hg] at hf
    exact (Option.some.inj hf).symm

/-! ## All reads -/

theorem survives_append {env : Env} {s s' : Session} {ok : Bool} {whole : List WireFrame}
    (h : handleFrames env (whole.map WireFrame.frame) s = (.returned ok, s'))
    (more : List WireFrame) : Survives env s (whole ++ more) ↔ Survives env s' more := by
  unfold Survives
  cases more with
  | nil =>
    obtain rfl := handleFrames_returned (congrArg Prod.fst h)
    obtain ⟨_, _, _, all, last⟩ := handleFrames_handed env s
      (whole.map WireFrame.frame)
    rw [List.append_nil, List.map_dropLast]
    exact iff_of_true (last.mp (all (congrArg Prod.fst h))) rfl
  | cons f more =>
    rw [List.dropLast_append_cons, List.map_append, handleFrames_append, h]

theorem not_survives_append {env : Env} {s s' : Session} {e : Exit} {whole : List WireFrame}
    (h : handleFrames env (whole.map WireFrame.frame) s = (e, s')) (ended : ∀ ok, e ≠ .returned ok)
    (f : WireFrame) (more : List WireFrame) : ¬ Survives env s (whole ++ f :: more) := by
  rw [Survives, List.dropLast_append_cons, List.map_append, handleFrames_append, h]
  cases e with
  | returned ok => exact absurd rfl (ended ok)
  | threw => exact ended true
  | aborted => exact ended true

/-- What is left of a stream is handed on: what the induction on its pieces proves
about every client. -/
def Delivers (env : Env) (chunks : List Bytes) : Prop :=
  ∀ (c : Client) (frames : List WireFrame), c.session.state = .idle →
    chunks.flatten = frames.flatMap WireFrame.bytes →
    ((doRequests env (chunks.map .bytes) c).2.session.handed =
        c.session.handed ++ frames.map WireFrame.frame ↔
      OnBoundaries WireFrame.bytes frames chunks ∧ (∀ f ∈ frames, f.Arrives) ∧
        Survives env c.session frames)

section
variable {env : Env} {s : Session} {buffer : Bytes} {n : Nat} {chunks : List Bytes}

/-- Where handling the frames of a region does not return, it has to be their last
that ends the process, and the last of the stream. -/
theorem region_ended (solid : ∀ c ∈ chunks, c ≠ []) {whole more : List WireFrame} {e : Exit}
    {s' : Session} (done : handleFrames env (whole.map WireFrame.frame) s = (e, s'))
    (ended : ∀ ok, e ≠ .returned ok) (starts : chunks.flatten = more.flatMap WireFrame.bytes) :
    s'.handed = s.handed ++ (whole ++ more).map WireFrame.frame ↔
      OnBoundaries WireFrame.bytes more chunks ∧ (∀ f ∈ more, f.Arrives) ∧
        Survives env s (whole ++ more) := by
  obtain ⟨handed, log, pre, _, last⟩ := handleFrames_handed env s
    (whole.map WireFrame.frame)
  rw [done] at log
  rw [show s'.handed = _ from log, List.append_cancel_left_eq]
  cases more with
  | nil =>
    have none : chunks = [] := by
      cases chunks with
      | nil => rfl
      | cons c chunks => exact absurd (List.append_eq_nil_iff.mp starts).1 (solid c (by simp))
    rw [none, onBoundaries_nil, List.append_nil, last, ← List.map_dropLast, Survives,
      and_iff_right rfl, and_iff_right (by simp)]
  | cons f more =>
    refine iff_of_false ?_ (fun all => not_survives_append done ended f more all.2.2)
    rintro rfl
    have short := pre.length_le
    simp at short

/-- The log after a region of whole frames that arrive. -/
theorem region_whole (solid : ∀ c ∈ chunks, c ≠ []) (ih : Delivers env chunks)
    (idle : s.state = .idle) {whole more : List WireFrame} (arrive : ∀ f ∈ whole, f.Arrives)
    (cut : Frame.toFrames (buffer.take n) = some (whole.map WireFrame.frame))
    (starts : chunks.flatten = more.flatMap WireFrame.bytes) :
    (after env (chunks.map .bytes) (handleBuffer env s buffer n)).2.session.handed =
        s.handed ++ (whole ++ more).map WireFrame.frame ↔
      OnBoundaries WireFrame.bytes more chunks ∧ (∀ f ∈ whole ++ more, f.Arrives) ∧
        Survives env s (whole ++ more) := by
  have others : (∀ f ∈ whole ++ more, f.Arrives) ↔ ∀ f ∈ more, f.Arrives := by
    simp only [List.forall_mem_append, and_iff_right arrive]
  have still := handleFrames_idle env (whole.map WireFrame.frame) idle
  obtain ⟨handed, log, _, all, _⟩ := handleFrames_handed env s
    (whole.map WireFrame.frame)
  simp only [handleBuffer, cut]
  rcases done : handleFrames env (whole.map WireFrame.frame) s with ⟨e, s'⟩
  rw [done] at still log all
  by_cases ended : ∃ ok, e = .returned ok
  · obtain ⟨ok, rfl⟩ := ended
    obtain rfl := handleFrames_returned (congrArg Prod.fst done)
    obtain rfl := all rfl
    rw [survives_append done, others, List.map_append, ← List.append_assoc, ← log]
    exact ih ⟨s', buffer⟩ more still starts
  · rw [not_exists] at ended
    have stopped : after env (chunks.map .bytes) (e, ⟨s', buffer⟩) = (e, ⟨s', buffer⟩) := by
      cases e with
      | returned ok => exact absurd rfl (ended ok)
      | threw => rfl
      | aborted => rfl
    rw [stopped, region_ended solid done ended starts, others]

theorem region_delivers (buffer : Bytes) (n : Nat) (solid : ∀ c ∈ chunks, c ≠ [])
    (ih : Delivers env chunks)
    (idle : s.state = .idle) (frames : List WireFrame)
    (stream : buffer.take n ++ chunks.flatten = frames.flatMap WireFrame.bytes) :
    (after env (chunks.map .bytes) (handleBuffer env s buffer n)).2.session.handed =
        s.handed ++ frames.map WireFrame.frame ↔
      OnBoundaries WireFrame.bytes frames (buffer.take n :: chunks) ∧ (∀ f ∈ frames, f.Arrives) ∧
        Survives env s frames := by
  cases cut_cases WireFrame.bytes stream with
  | between whole more split ends starts =>
    obtain rfl := split
    have cut : Frame.toFrames (buffer.take n) = some (whole.map WireFrame.pushed) := by
      rw [ends, ← List.append_nil (whole.flatMap WireFrame.bytes), WireFrame.toFrames_whole]
      simp
    by_cases arrive : ∀ f ∈ whole, f.Arrives
    · rw [List.map_congr_left fun f hf => f.pushed_iff.mpr (arrive f hf)] at cut
      rw [region_whole solid ih idle arrive cut starts, ends,
        onBoundaries_between WireFrame.bytes_ne_nil]
    · push Not at arrive
      obtain ⟨f, hf, lost⟩ := arrive
      obtain ⟨i, at_⟩ := List.getElem?_of_mem hf
      refine iff_of_false ?_ (fun all => lost (all.2.1 f (List.mem_append_left _ hf)))
      have inside := (List.getElem?_eq_some_iff.mp at_).1
      exact region_wrong cut _ (by rw [List.getElem?_map, at_]; rfl)
        (by rw [List.getElem?_map, List.getElem?_append_left inside, at_]; rfl)
        (mt f.pushed_iff.mp lost)
  | inside whole more block part left split cutAt some notAll ends =>
    obtain rfl := split
    have cut : Frame.toFrames (buffer.take n) =
        .some (whole.map WireFrame.pushed ++ [({} : Frame)]) := by
      rw [ends, WireFrame.toFrames_whole, WireFrame.toFrames_part cutAt some notAll]
      rfl
    rw [ends]
    refine iff_of_false ?_ (fun all => onBoundaries_inside cutAt some notAll all.1)
    exact region_wrong cut _ (i := whole.length) (by simp) (by simp) block.frame_ne_default.symm

/-- A piece that starts with a frame is not taken for a preface. -/
theorem doRequest_frames (env : Env) {c : Client} (idle : c.session.state = .idle) (more : Bytes) :
    doRequest env c (.bytes (0 :: more)) =
      handleBuffer env c.session
        (0 :: more ++ (resize c.recvBuffer bufferSize).drop (0 :: more).length)
        (0 :: more).length := by
  have first : prefaceStr = 0x50 :: prefaceStr.tail := by decide
  have same : ({ c.session with state := .idle } : Session) = c.session := by rw [← idle]
  have other : prefaceStr.isPrefixOf
      (0 :: more ++ (resize c.recvBuffer bufferSize).drop (0 :: more).length) = false := by
    rw [first, List.cons_append, List.isPrefixOf]
    rfl
  simp only [doRequest, same, other, Bool.false_eq_true, ↓reduceIte]

theorem delivers (env : Env) (chunks : List Bytes) (solid : ∀ c ∈ chunks, c ≠ []) :
    Delivers env chunks := by
  induction chunks with
  | nil =>
    intro c frames _ none
    obtain rfl := flatMap_eq_nil WireFrame.bytes_ne_nil none.symm
    exact iff_of_true (List.append_nil _).symm ⟨(onBoundaries_nil _).mpr rfl, by simp, rfl⟩
  | cons chunk chunks ih =>
    intro c frames idle stream
    rw [List.forall_mem_cons] at solid
    rw [List.flatten_cons] at stream
    obtain ⟨more, rfl⟩ : ∃ more, chunk = 0 :: more := by
      cases frames with
      | nil => exact absurd (List.append_eq_nil_iff.mp stream).1 solid.1
      | cons f frames =>
        obtain ⟨body, first⟩ := f.bytes_first
        obtain ⟨b, more, rfl⟩ := List.exists_cons_of_ne_nil solid.1
        rw [List.flatMap_cons, first, List.cons_append, List.cons_append] at stream
        rw [(List.cons.inj stream).1]
        exact ⟨more, rfl⟩
    have read := doRequest_frames env idle more
    generalize (resize c.recvBuffer bufferSize).drop (0 :: more).length = left at read
    have region := region_delivers (0 :: more ++ left) (0 :: more).length solid.2 (ih solid.2) idle
      frames (by rw [List.take_left]; exact stream)
    rw [List.take_left] at region
    rw [List.map_cons, doRequests_cons, read, region]

end

/-! ## The first read -/

section
variable (env : Env)

theorem started_spec : (started env).handed = [] ∧ (started env).state = .idle := by
  obtain ⟨ok, s', sent, within⟩ := applySettings_returns env { state := .idle }
  rw [started, sent]
  exact ⟨within.handed, within.idle rfl⟩

theorem doRequest_preface (region : Bytes) :
    ∃ buffer, doRequest env {} (.bytes (prefaceStr ++ region)) =
        handleBuffer env (started env) buffer region.length ∧
      buffer.take region.length = region := by
  obtain ⟨ok, s', sent, _⟩ := applySettings_returns env { state := .idle }
  unfold doRequest
  dsimp only
  generalize (resize (List.replicate bufferSize 0) bufferSize).drop _ = left
  have found : prefaceStr.isPrefixOf (prefaceStr ++ region ++ left) = true := by
    rw [List.isPrefixOf_iff_prefix, List.append_assoc]
    exact List.prefix_append _ _
  rw [if_pos found, sent, List.append_assoc, List.drop_left, List.length_append,
    Nat.add_sub_cancel_left, started, sent]
  exact ⟨region ++ left, rfl, List.take_left⟩

/-- Behind a part of the preface the buffer still has its zeros. -/
theorem doRequest_cutPreface {first left : Bytes} (cut : prefaceStr = first ++ left)
    (notAll : left ≠ []) :
    ∃ buffer, doRequest env {} (.bytes first) =
        handleBuffer env { state := .idle } buffer first.length ∧
      buffer.take first.length = first := by
  have zeros : (resize (List.replicate bufferSize 0) bufferSize).drop first.length =
      List.replicate (bufferSize - first.length) 0 := by
    simp [resize]
  have noZero : (0 : Byte) ∉ prefaceStr := by decide
  have other : ¬ prefaceStr.isPrefixOf
      (first ++ List.replicate (bufferSize - first.length) 0) = true := by
    rw [List.isPrefixOf_iff_prefix]
    intro found
    obtain ⟨b, left, rfl⟩ := List.exists_cons_of_ne_nil notAll
    rw [cut, List.prefix_append_right_inj] at found
    have zero : b = 0 := List.eq_of_mem_replicate (found.subset (by simp))
    rw [cut, zero] at noZero
    simp at noZero
  unfold doRequest
  dsimp only
  rw [zeros, if_neg other]
  exact ⟨_, rfl, List.take_left⟩

theorem toFrames_cutPreface {first left : Bytes} (cut : prefaceStr = first ++ left)
    (some : first ≠ []) (notAll : left ≠ []) : Frame.toFrames first = .some [{}] := by
  have each : ∀ n < 24, 0 < n → Frame.toFrames (prefaceStr.take n) = .some [{}] := by
    decide +kernel
  have length := congrArg List.length cut
  rw [List.length_append, show prefaceStr.length = 24 by decide] at length
  have notEmpty := List.length_pos_of_ne_nil some
  have remains := List.length_pos_of_ne_nil notAll
  have := each first.length (by omega) notEmpty
  rwa [cut, List.take_left] at this

/-- A first read that has the whole preface is one of the rest of its bytes. -/
theorem whole_preface (region : Bytes) {chunks : List Bytes} (solid : ∀ c ∈ chunks, c ≠ [])
    (frames : List WireFrame)
    (stream : region ++ chunks.flatten = frames.flatMap WireFrame.bytes) :
    (doRequests env (((prefaceStr ++ region) :: chunks).map .bytes) {}).2.session.handed =
        frames.map WireFrame.frame ↔
      Aligned frames ((prefaceStr ++ region) :: chunks) ∧ (∀ f ∈ frames, f.Arrives) ∧
        Survives env (started env) frames := by
  have aligned : Aligned frames ((prefaceStr ++ region) :: chunks) ↔
      OnBoundaries WireFrame.bytes frames (region :: chunks) := by
    constructor
    · rintro ⟨region', rest, same, whole⟩
      obtain ⟨first, rfl⟩ := List.cons.inj same
      rwa [List.append_cancel_left first]
    · exact fun whole => ⟨region, chunks, rfl, whole⟩
  obtain ⟨nothing, idle⟩ := started_spec env
  obtain ⟨buffer, read, taken⟩ := doRequest_preface env region
  have delivered := region_delivers buffer region.length solid (delivers env chunks solid) idle
    frames (by rw [taken]; exact stream)
  rw [nothing, List.nil_append, taken] at delivered
  rw [List.map_cons, doRequests_cons, read, delivered, aligned]

/-- A first read that ends inside the preface has a default frame handed on. -/
theorem cut_preface {first left : Bytes} (cut : prefaceStr = first ++ left) (some : first ≠ [])
    (notAll : left ≠ []) (chunks : List Bytes) (frames : List WireFrame) :
    (doRequests env ((first :: chunks).map .bytes) {}).2.session.handed ≠
      frames.map WireFrame.frame := by
  obtain ⟨buffer, read, taken⟩ := doRequest_cutPreface env cut notAll
  have pushed := toFrames_cutPreface cut some notAll
  rw [← taken] at pushed
  obtain ⟨handed, more, log, _, _, last⟩ := region_handed env { state := .idle } pushed
    (chunks.map .bytes)
  rw [List.map_cons, doRequests_cons, read, log, last.mpr rfl]
  intro same
  cases frames with
  | nil => cases same
  | cons f frames => exact f.frame_ne_default (List.cons.inj same).1.symm

end

/-- **Segmentation.** The frames of a stream are handed on exactly when every read
returns whole frames, each of a form the decoder accepts, and none but the last
ends the process. -/
theorem segmentation_iff (env : Env) (frames : List WireFrame) (chunks : List Bytes)
    (sizes : ∀ c ∈ chunks, 1 ≤ c.length ∧ c.length ≤ bufferSize)
    (stream : chunks.flatten = prefaceStr ++ frames.flatMap WireFrame.bytes) :
    (doRequests env (chunks.map .bytes) {}).2.session.handed = frames.map WireFrame.frame ↔
      Aligned frames chunks ∧ (∀ f ∈ frames, f.Arrives) ∧ Survives env (started env) frames := by
  have solid : ∀ c ∈ chunks, c ≠ [] := fun c hc => List.ne_nil_of_length_pos (sizes c hc).1
  cases chunks with
  | nil =>
    have empty := (List.append_eq_nil_iff.mp stream.symm).1
    exact absurd empty (by decide)
  | cons first chunks =>
    rw [List.forall_mem_cons] at solid
    rw [List.flatten_cons, List.append_eq_append_iff] at stream
    rcases stream with ⟨left, cut, rest⟩ | ⟨region, rfl, rest⟩
    · by_cases all : left = []
      · subst all
        rw [List.append_nil] at cut
        have whole := whole_preface env [] solid.2 frames (by simpa using rest)
        rwa [List.append_nil, cut] at whole
      · refine iff_of_false (cut_preface env cut solid.1 all chunks frames) ?_
        rintro ⟨⟨region, chunks, same, _⟩, _⟩
        have length := congrArg List.length cut
        rw [(List.cons.inj same).1] at length
        simp only [List.length_append] at length
        exact all (List.eq_nil_of_length_eq_zero (by omega))
    · exact whole_preface env region solid.2 frames rest.symm

def settingsFrame : WireFrame where
  type := FrameType.settings.code
  flags := 0
  sid := 0
  padding := none
  priority := none
  data := []
  sid_lt := by decide
  padded := by decide
  prioritised := by decide
  padding_le _ padded := by cases padded
  ping := by decide
  size_le := by decide

/-- A HEADERS frame with END_HEADERS and END_STREAM, for `/`. -/
def getFrame : WireFrame where
  type := FrameType.headers.code
  flags := Flag.endHeaders ||| Flag.endStream
  sid := 1
  padding := none
  priority := none
  data := [0x82, 0x84]
  sid_lt := by decide
  padded := by decide
  prioritised := by decide
  padding_le _ padded := by cases padded
  ping := by decide
  size_le := by decide

theorem segmentation_iff_get :
    (doRequests siteEnv ([prefaceStr ++ settingsFrame.bytes, getFrame.bytes].map .bytes)
      {}).2.session.handed = [settingsFrame, getFrame].map WireFrame.frame :=
  (segmentation_iff siteEnv [settingsFrame, getFrame]
    [prefaceStr ++ settingsFrame.bytes, getFrame.bytes] (by decide) (by decide)).mpr
    ⟨⟨settingsFrame.bytes, [getFrame.bytes], rfl, [[settingsFrame], [getFrame]], rfl, by decide⟩,
      by decide, by decide +kernel⟩

/-- The preface and a SETTINGS frame, cut in the frame's header. -/
def cutStream : List Bytes :=
  [prefaceStr ++ settingsFrame.bytes.take 4, settingsFrame.bytes.drop 4]

theorem cutFrame_lost :
    (∀ c ∈ cutStream, 1 ≤ c.length ∧ c.length ≤ bufferSize) ∧
    cutStream.flatten = prefaceStr ++ [settingsFrame].flatMap WireFrame.bytes ∧
    (doRequests siteEnv (cutStream.map .bytes) {}).2.session.handed = [{}, {}] ∧
    (doRequests siteEnv (cutStream.map .bytes) {}).2.session.handed ≠
      [settingsFrame].map WireFrame.frame := by
  refine ⟨by decide, by decide, by decide +kernel, by decide +kernel⟩

end Segmentation

end Http2Server
