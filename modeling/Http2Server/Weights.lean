import Http2Server.Client
import Http2Server.OwnStream

/-!
# Weights

The pool serves writes of greater weight first, and a write has the weight of its stream.
Only a PRIORITY frame could give it one, and `decode` never reads the block of those.

- `unweighted_lasting`: no frame of a connection gives a stream a priority.
- `reachable_unweighted`: nor is a write ever given to the pool with a weight.
-/

namespace Http2Server.FrameHandler

/-- A stream with the priority it was made with. -/
structure Unweighted (strm : Stream) : Prop where
  weight : strm.weight = 0
  dependency : strm.dependency = -1
  exclusive : strm.exclusive = false

/-- PRIORITY frames have their block from `decode`, which does not read it. -/
theorem unweighted_lasting : Lasting Frame.Unread Unweighted where
  data _ _ _ h := ⟨h.weight, h.dependency, h.exclusive⟩
  priority f _ unread type read _ := by
    rw [unread type] at read
    cases read
  opened s f _ every := by
    have known : Unweighted ((s.streams f.sid).getD { id := f.sid }) := by
      cases found : s.streams f.sid with
      | none => exact ⟨rfl, rfl, rfl⟩
      | some strm => exact every f.sid strm found
    exact ⟨known.weight, known.dependency, known.exclusive⟩
  continued _ _ _ h := ⟨h.weight, h.dependency, h.exclusive⟩
  received s strm h := by
    unfold received
    dsimp only
    split <;> exact ⟨h.weight, h.dependency, h.exclusive⟩

/-- Every write so far was submitted without weight. -/
def Light (s : Session) : Prop := ∀ e ∈ s.sent, e.weight = 0

section
variable {env : Env} {s : Session} {f : Frame}

theorem Light.afterSend (light : Light s) (buffers : List Bytes) :
    Light (s.afterSend env 0 buffers) := by
  have attempts : ∀ n, ∀ e ∈ Session.attempts env 0 n buffers, e.weight = 0 := by
    induction buffers with
    | nil => exact fun n e he => absurd he List.not_mem_nil
    | cons buffer rest ih =>
      intro n
      rw [Session.attempts, List.forall_mem_cons]
      refine ⟨rfl, ?_⟩
      split
      · exact fun e he => absurd he List.not_mem_nil
      · exact ih (n + 1)
  intro e he
  rcases List.mem_append.mp he with before | new
  · exact light e before
  · exact attempts _ e new

theorem Light.sendFrame (light : Light s) (f : Frame) : Light (sendFrame env s f 0).2 := by
  unfold Http2Server.sendFrame
  split
  · exact light
  · intro e he
    rcases List.mem_append.mp he with before | new
    · exact light e before
    · rw [List.mem_singleton.mp new]

theorem Light.processEndHeader (light : Light s) {strm : Stream} (plain : Unweighted strm) :
    Light (processEndHeader env s strm).2.2 := by
  rw [processEndHeader_eq]
  split
  · exact light
  · next some =>
    obtain ⟨path, requested⟩ := Option.ne_none_iff_exists'.mp some
    apply serve_invariant env (first_received requested)
    · exact light
    · intro s _ _ buffers _ _ before
      rw [received_weight, plain.weight]
      exact before.afterSend buffers

theorem Light.handleFrame (light : Light s) (every : Every Unweighted s) (unread : f.Unread) :
    Light (handleFrame env s f).2 := by
  have logged : Light (s.log (.handleFrame f)) := light
  apply (dispatch_effect env (s.log (.handleFrame f)) f).invariant (P := Light) logged
  · exact fun _ _ before => before
  · intro strm completes
    apply logged.processEndHeader
    exact unweighted_lasting.completed (s := s.log (.handleFrame f)) unread every completes
  · intro _ _ _
    obtain ⟨settings, _, taken⟩ | ⟨_, dropped⟩ := ackSettings_cases env (s.log (.handleFrame f)) f
    · have given : Light { s.log (.handleFrame f) with settings } := light
      rw [taken]
      exact given.sendFrame _
    · rw [dropped]
      exact light
  · exact fun _ _ => logged.sendFrame _
  · exact light

/-- The frames of a read. -/
theorem handleFrames_unweighted {frames handled : List Frame} {bytes : Bytes}
    (parsed : Frame.toFrames bytes = some frames) (first : handled <+: frames)
    (before : Every Unweighted s ∧ Light s) :
    Every Unweighted (handleFrames env handled s).2 ∧ Light (handleFrames env handled s).2 := by
  have unread := Frame.toFrames_all (P := Frame.Unread) (fun _ _ => Frame.decode_unread) parsed
  apply handleFrames_invariant (P := fun s => Every Unweighted s ∧ Light s) _ before
  intro s f hf before
  have fits := unread f (first.subset hf)
  exact ⟨unweighted_lasting.handleFrame fits before.1, before.2.handleFrame before.1 fits⟩

theorem region_unweighted {c : Client} (data : Bytes)
    (before : Every Unweighted c.session ∧ Light c.session) :
    Every Unweighted (region env c data).1 ∧ Light (region env c data).1 := by
  apply region_invariant (P := fun s => Every Unweighted s ∧ Light s) _ _ env data before
  · exact fun _ _ _ _ before => before
  · intro env s before
    refine ⟨?_, before.2.sendFrame _⟩
    intro sid strm found
    rw [applySettings, sendFrame_streams] at found
    exact before.1 sid strm found

theorem reached_unweighted {c : Client} (reached : Reached c) :
    Every Unweighted c.session ∧ Light c.session := by
  induction reached with
  | new => exact ⟨fun _ _ none => (by cases none), fun _ empty => absurd empty List.not_mem_nil⟩
  | @read env c c' read ok _ _ done ih =>
    cases read with
    | failed errno =>
      rw [doRequest] at done
      cases done
      split <;> exact ih
    | closed =>
      rw [doRequest] at done
      cases done
      exact ih
    | bytes data =>
      obtain ⟨buffer, whole⟩ := doRequest_bytes env c data
      rw [done] at whole
      split at whole
      · cases whole
      · next frames parsed =>
        obtain rfl := congrArg Prod.snd whole
        exact handleFrames_unweighted parsed (List.prefix_refl _) (region_unweighted data ih)

/-- **Weights.** On a connection no stream ever has a priority, whatever PRIORITY frames come,
and every write is given to the pool with weight zero. -/
theorem reachable_unweighted (reachable : Reachable s) :
    (∀ sid strm, s.streams sid = some strm →
      strm.weight = 0 ∧ strm.dependency = -1 ∧ strm.exclusive = false) ∧
    ∀ e ∈ s.sent, e.weight = 0 := by
  have both : Every Unweighted s ∧ Light s := by
    cases reachable with
    | between reached => exact reached_unweighted reached
    | within reached _ parsed first =>
      exact handleFrames_unweighted parsed first (region_unweighted _ (reached_unweighted reached))
  refine ⟨fun sid strm found => ?_, both.2⟩
  have plain := both.1 sid strm found
  exact ⟨plain.weight, plain.dependency, plain.exclusive⟩

end

/-- A POST, and a PRIORITY frame that gives its stream weight 16. -/
def weighted : Bytes :=
  postOpening.bytes ++
    [0x00, 0x00, 0x05, 0x02, 0x00, 0x00, 0x00, 0x00, 0x01, 0x00, 0x00, 0x00, 0x00, 0x0f]

theorem reachable_unweighted_post : ∃ (c : Client) (strm : Stream),
    doRequest siteEnv {} (.bytes weighted) = (.returned true, c) ∧
      c.session.streams 1 = some strm ∧ strm.weight = 0 := by
  have done : doRequest siteEnv {} (.bytes weighted) =
      (.returned true, (doRequest siteEnv {} (.bytes weighted)).2) :=
    Prod.ext (by decide +kernel) rfl
  have known : ((doRequest siteEnv {} (.bytes weighted)).2.session.streams 1).isSome := by
    decide +kernel
  obtain ⟨strm, found⟩ := Option.isSome_iff_exists.mp known
  have fits : weighted.length ≤ bufferSize := by decide +kernel
  have reached := Reached.read .new (show (ReadResult.bytes weighted).Fits from fits) done
  exact ⟨_, strm, done, found, ((reachable_unweighted (.between reached)).1 1 strm found).1⟩

end Http2Server.FrameHandler
