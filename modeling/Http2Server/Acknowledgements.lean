import Http2Server.OneResponse
import Http2Server.PeerSettings

/-!
# Acknowledgements

Which acknowledgements a run sends. SETTINGS with ACK are left alone; PING with
ACK is answered like any other.

- `handleFrame_acks`: what each frame is acknowledged with.
- `acknowledges_iff`: when that is what should be acknowledged.
-/

namespace Http2Server.FrameHandler

def pingAck (payload : Bytes) : Frame :=
  { type := FrameType.ping.code, flags := Flag.ack, payload }

theorem hasFlag_pingAck (payload : Bytes) : (pingAck payload).hasFlag Flag.ack = true := by
  simp only [pingAck, Frame.hasFlag, Flag.ack, UInt8.and_self, beq_self_eq_true]

theorem pingAck_plain {payload : Bytes} (small : payload.length < 2 ^ 24) :
    (pingAck payload).Plain :=
  Frame.plain_of_flags (by decide) (by decide) small

/-- A PING or SETTINGS frame with ACK. -/
def IsAck (f : Frame) : Prop :=
  (f.type = FrameType.ping.code ∨ f.type = FrameType.settings.code) ∧ f.hasFlag Flag.ack = true

instance : DecidablePred IsAck := fun _ => inferInstanceAs (Decidable (_ ∧ _))

/-- A PING frame that is answered. -/
def Ping (f : Frame) : Prop := f.sid = 0 ∧ f.type = FrameType.ping.code

instance : DecidablePred Ping := fun _ => inferInstanceAs (Decidable (_ ∧ _))

/-- The acknowledgements among the frames submitted so far. -/
def sentAcks (s : Session) : List Frame := s.submitted.filter (IsAck ·)

/-- What a frame should be acknowledged with: a PING, if it is not an
acknowledgement itself, and valid settings. -/
def ackFor (f : Frame) : Option Frame :=
  if Ping f ∧ ¬ IsAck f then some (pingAck f.payload)
  else if ValidSettings f then some settingsAck
  else none

/-- What it is acknowledged with. -/
def ackSent (f : Frame) : Option Frame :=
  if Ping f then some (pingAck f.payload)
  else if ValidSettings f then some settingsAck
  else none

/-- Responses are no acknowledgements. -/
theorem PartOf.filter_acks {sid : Nat} {part : List Frame} (h : PartOf sid part) :
    part.filter (IsAck ·) = [] := by
  rw [List.filter_eq_nil_iff]
  intro f hf
  have typed : f.type = FrameType.headers.code ∨ f.type = FrameType.data.code := by
    obtain rfl | ⟨head, body, rfl, headers, data, _⟩ := h.oneResponse.1
    · cases hf
    · obtain rfl | hf := List.mem_cons.mp hf
      · exact .inl headers
      · exact .inr (data f hf)
  rcases typed with type | type <;> simp [IsAck, type, FrameType.code]

/-- A block is answered without acknowledgements. -/
theorem processEndHeader_acks (env : Env) (s : Session) (strm : Stream) :
    sentAcks (processEndHeader env s strm).2.2 = sentAcks s := by
  cases answered : answerOf env s strm with
  | none =>
    rw [sentAcks, Session.submitted, (processEndHeader_unanswered answered).2.1]
    rfl
  | some answer =>
    obtain ⟨_, same⟩ | ⟨part, page, put, _, response, error, _⟩ :=
      processEndHeader_answered answered
    · rw [sentAcks, Session.submitted, same]
      rfl
    · rw [sentAcks, put, List.filter_append, List.filter_append, response.filter_acks,
        error.filter_acks, List.append_nil, List.append_nil, sentAcks]

/-- Where there is nothing to acknowledge, nothing is. -/
theorem dispatch_unacked (env : Env) (s : Session) {f : Frame} (ping : ¬ Ping f)
    (invalid : ¬ ValidSettings f) : sentAcks (dispatch env s f).2 = sentAcks s := by
  apply (dispatch_effect env s f).invariant (P := (sentAcks · = sentAcks s)) rfl
  · exact fun _ _ kept => kept
  · exact fun strm _ => processEndHeader_acks env s strm
  · intro zero type asked
    rw [ackSettings_invalid env s zero type asked invalid]
  · exact fun zero type => absurd ⟨zero, type⟩ ping
  · rfl

/-- A PING is sent back, whether or not it is an acknowledgement. -/
theorem handleFrame_ping (env : Env) (s : Session) {f : Frame} (ping : Ping f)
    (small : f.payload.length < 2 ^ 24) :
    (handleFrame env s f).2.submitted = s.submitted ++ [pingAck f.payload] := by
  have sent : dispatch env (s.log (.handleFrame f)) f =
      sendFrame env (s.log (.handleFrame f)) (pingAck f.payload) 0 := by
    simp only [dispatch, ping.2, FrameType.ofCode_code, handlePingFrame, ping.1, ne_eq,
      not_true_eq_false, ↓reduceIte, pingAck]
  rw [handleFrame, sent, sendFrame_submits env _ (pingAck_plain small)]
  rfl

/-- **Acknowledging.** What one frame adds to the acknowledgements. -/
theorem handleFrame_acks (env : Env) (s : Session) {f : Frame}
    (small : f.payload.length < 2 ^ 24) :
    sentAcks (handleFrame env s f).2 = sentAcks s ++ (ackSent f).toList := by
  by_cases ping : Ping f
  · have own : IsAck (pingAck f.payload) := ⟨.inl rfl, hasFlag_pingAck f.payload⟩
    rw [sentAcks, handleFrame_ping env s ping small, List.filter_append, ackSent, if_pos ping]
    simp only [own, decide_true, List.filter_cons, List.filter_nil, ↓reduceIte, Option.toList_some,
      sentAcks]
  · by_cases valid : ValidSettings f
    · have own : IsAck settingsAck.onWire := ⟨.inr rfl, rfl⟩
      rw [handleFrame, dispatch_valid env _ valid, sentAcks,
        sendFrame_submits env _ settingsAck_plain, List.filter_append, ackSent, if_neg ping,
        if_pos valid]
      simp only [own, decide_true, List.filter_cons, List.filter_nil, ↓reduceIte,
        Option.toList_some]
      rfl
    · rw [handleFrame, dispatch_unacked env _ ping valid, ackSent, if_neg ping, if_neg valid,
        Option.toList_none, List.append_nil]
      rfl

/-- An acknowledgement has nothing submitted for it, unless it is a PING. -/
theorem handleFrame_silent (env : Env) (s : Session) {f : Frame} (ack : IsAck f)
    (other : ¬ Ping f) : (handleFrame env s f).2.submitted = s.submitted := by
  have unacked : ¬ Acknowledged f := by
    rintro ⟨zero, ping | ⟨_, asked, _⟩⟩
    · exact other ⟨zero, ping⟩
    · rw [ack.2] at asked
      cases asked
  have incomplete : completed (s.log (.handleFrame f)) f = none := by
    have typed : f.type ≠ FrameType.headers.code ∧ f.type ≠ FrameType.continuation.code := by
      obtain type | type := ack.1 <;> rw [type] <;> decide
    by_contra some
    obtain ⟨strm, block⟩ := Option.ne_none_iff_exists'.mp some
    obtain ⟨type, _⟩ | ⟨type, _⟩ := (completed_cases block).2
    · exact typed.1 type
    · exact typed.2 type
  obtain same | ⟨acked, _⟩ := dispatch_incomplete env (s.log (.handleFrame f)) f incomplete
    fun acked => absurd acked unacked
  · exact same
  · exact absurd acked unacked

/-! ## Runs -/

/-- Over a run, one acknowledgement for each frame that gets one, in order. -/
theorem run_acks {env : Env} {s s' : Session} {trace : List (Frame × Bool)}
    (run : Run env s trace s') (small : ∀ e ∈ trace, e.1.payload.length < 2 ^ 24) :
    sentAcks s' = sentAcks s ++ (trace.map Prod.fst).filterMap ackSent := by
  induction run with
  | nil => simp
  | @step s _ _ f ok rest handled _ ih =>
    have first := handleFrame_acks env s (small (f, ok) (by simp))
    rw [handled] at first
    rw [ih fun e he => small e (by simp [he]), first, List.append_assoc, List.map_cons,
      List.filterMap_cons]
    cases ackSent f <;> rfl

/-- Nothing is submitted for a frame with ACK. -/
def AcksUnanswered (env : Env) : Session → List (Frame × Bool) → Prop
  | _, [] => True
  | s, (f, _) :: rest =>
    (IsAck f → (handleFrame env s f).2.submitted = s.submitted) ∧
      AcksUnanswered env (handleFrame env s f).2 rest

theorem unanswered_iff {env : Env} {s s' : Session} {trace : List (Frame × Bool)}
    (run : Run env s trace s') (small : ∀ e ∈ trace, e.1.payload.length < 2 ^ 24) :
    AcksUnanswered env s trace ↔ ∀ e ∈ trace, ¬ (Ping e.1 ∧ IsAck e.1) := by
  induction run with
  | nil => simp [AcksUnanswered]
  | @step s _ _ f ok rest handled _ ih =>
    have first : (IsAck f → (handleFrame env s f).2.submitted = s.submitted) ↔
        ¬ (Ping f ∧ IsAck f) := by
      constructor
      · rintro silent ⟨ping, ack⟩
        have grown := handleFrame_ping env s ping (small (f, ok) (by simp))
        rw [silent ack] at grown
        simpa using congrArg List.length grown
      · intro none ack
        exact handleFrame_silent env s ack fun ping => none ⟨ping, ack⟩
    rw [AcksUnanswered, first, handled, ih fun e he => small e (by simp [he]),
      List.forall_mem_cons]

/-- **Acknowledgements.** In a run from a new client, over frames as they are read,
what is acknowledged is what should be, and no acknowledgement is answered, exactly
where no PING on stream 0 is an acknowledgement. -/
theorem acknowledges_iff (env : Env) (trace : List (Frame × Bool)) (s' : Session)
    (run : Run env {} trace s') (small : ∀ e ∈ trace, e.1.payload.length < 2 ^ 24) :
    (sentAcks s' = (trace.map Prod.fst).filterMap ackFor ∧ AcksUnanswered env {} trace) ↔
      ∀ e ∈ trace, ¬ (Ping e.1 ∧ IsAck e.1) := by
  rw [unanswered_iff run small, and_iff_right_iff_imp]
  intro none
  rw [run_acks run small]
  apply List.filterMap_congr
  intro f hf
  obtain ⟨e, he, rfl⟩ := List.mem_map.mp hf
  have same : Ping e.1 ↔ Ping e.1 ∧ ¬ IsAck e.1 := by
    have := none e he
    tauto
  simp only [ackSent, ackFor, ← same]

/-- A PING for the server, and an acknowledgement of one it never sent. -/
def ping : Frame := { payload := [1, 2, 3, 4, 5, 6, 7, 8] }

def strayAck : Frame := pingAck [8, 7, 6, 5, 4, 3, 2, 1]

theorem pingRun : ∃ s', Run siteEnv {} [(ping, true), (noPush, true)] s' :=
  ⟨_, .step (handleFrame_eta (by decide +kernel))
    (.step (handleFrame_eta (by decide +kernel)) (.nil _))⟩

theorem acknowledges_iff_ping :
    ∃ s', Run siteEnv {} [(ping, true), (noPush, true)] s' ∧
      ((sentAcks s' = ([(ping, true), (noPush, true)].map Prod.fst).filterMap ackFor ∧
          AcksUnanswered siteEnv {} [(ping, true), (noPush, true)]) ↔
        ∀ e ∈ [(ping, true), (noPush, true)], ¬ (Ping e.1 ∧ IsAck e.1)) := by
  obtain ⟨s', run⟩ := pingRun
  exact ⟨s', run, acknowledges_iff siteEnv _ s' run (by decide)⟩

theorem strayAck_answered :
    ∃ s', Run siteEnv {} [(strayAck, true)] s' ∧
      ¬ (sentAcks s' = ([(strayAck, true)].map Prod.fst).filterMap ackFor ∧
        AcksUnanswered siteEnv {} [(strayAck, true)]) := by
  have handled : (handleFrame siteEnv {} strayAck).1 = .returned true := by decide +kernel
  have run := Run.step (handleFrame_eta handled) (.nil _)
  refine ⟨_, run, ?_⟩
  rintro ⟨-, unanswered⟩
  exact (unanswered_iff run (by decide)).mp unanswered (strayAck, true) (by simp)
    ⟨by decide, by decide⟩

end Http2Server.FrameHandler
