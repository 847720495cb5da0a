import Http2Server.Epoller
import Http2Server.Uploads

/-!
# What a connection understands

What the server makes of what it reads does not depend on what it answers: not on the
files and the bindings, nor on how the writes went, short of an end of the process.

- `heard_handleFrame`: what a frame leaves, the writes and the state they set apart.
- `understood`: two connections with the same reads get to the same.
-/

namespace Http2Server

open FrameHandler

/-- A session without its writes, and without the state that every write sets. -/
def Session.heard (s : Session) : Session := { s with state := .idle, sent := [] }

theorem Session.heard_eq {s s' : Session} (alike : s.heard = s'.heard) :
    ∃ state sent, s' = { s with state, sent } := by
  refine ⟨s'.state, s'.sent, ?_⟩
  calc s' = { s'.heard with state := s'.state, sent := s'.sent } := rfl
    _ = { s.heard with state := s'.state, sent := s'.sent } := by rw [alike]
    _ = { s with state := s'.state, sent := s'.sent } := rfl

theorem Session.heard_setStream {s s' : Session} (alike : s.heard = s'.heard) (sid : Nat)
    (strm : Stream) : (s.setStream sid strm).heard = (s'.setStream sid strm).heard := by
  obtain ⟨state, sent, rfl⟩ := heard_eq alike
  rfl

theorem Session.heard_eraseStream {s s' : Session} (alike : s.heard = s'.heard) (sid : Nat) :
    (s.eraseStream sid).heard = (s'.eraseStream sid).heard := by
  obtain ⟨state, sent, rfl⟩ := heard_eq alike
  rfl

namespace FrameHandler

/-! ## Handlers -/

section
variable (env env' : Env) (s : Session) (f : Frame) (state : ClientState) (sent : List Sent)

theorem heard_sendFrame (weight : Int) : (sendFrame env s f weight).2.heard = s.heard := by
  unfold sendFrame
  split <;> rfl

/-- What a completed block leaves, whatever is answered. -/
theorem heard_processEndHeader (strm : Stream) :
    (processEndHeader env s strm).2.2.heard =
      if requestPath s strm = none then
        Session.heard { s with hpackDecoder := (decoded s strm).table }
      else (Session.log { s with hpackDecoder := (decoded s strm).table }
        (.respondGet strm.id)).heard := by
  rw [processEndHeader_eq]
  split
  · rfl
  · next some =>
    obtain ⟨path, requested⟩ := Option.ne_none_iff_exists'.mp some
    apply serve_invariant env (first_received requested) (P := fun s' => s'.heard = _)
    · rw [received_id]
    · exact fun s' _ _ _ _ _ same => same

theorem heard_block (strm : Stream) :
    (processEndHeader env s strm).2.1 =
        (processEndHeader env' { s with state, sent } strm).2.1 ∧
      (processEndHeader env s strm).2.2.heard =
        (processEndHeader env' { s with state, sent } strm).2.2.heard := by
  constructor
  · rw [processEndHeader_stream, processEndHeader_stream]
    rfl
  · rw [heard_processEndHeader, heard_processEndHeader]
    rfl

theorem heard_handleDataFrame :
    (handleDataFrame s f).2.heard = (handleDataFrame { s with state, sent } f).2.heard := by
  unfold handleDataFrame
  dsimp only
  cases s.streams f.sid with
  | none => rfl
  | some strm =>
    dsimp only
    split <;> rfl

theorem heard_handlePriorityFrame :
    (handlePriorityFrame s f).2.heard = (handlePriorityFrame { s with state, sent } f).2.heard := by
  unfold handlePriorityFrame
  dsimp only
  cases s.streams f.sid with
  | none => rfl
  | some strm =>
    dsimp only
    split <;> rfl

theorem heard_handleResetFrame :
    (handleResetFrame s f).2.heard = (handleResetFrame { s with state, sent } f).2.heard := by
  unfold handleResetFrame
  dsimp only
  cases s.streams f.sid with
  | none => rfl
  | some strm =>
    dsimp only
    split <;> rfl

theorem heard_ackSettings :
    (ackSettings env s f).2.heard = (ackSettings env' { s with state, sent } f).2.heard := by
  obtain ⟨settings, decodes, taken⟩ | ⟨refused, dropped⟩ := ackSettings_cases env s f
  · obtain ⟨settings', decodes', taken'⟩ | ⟨refused, _⟩ :=
      ackSettings_cases env' { s with state, sent } f
    · obtain rfl : settings = settings' := congrArg Prod.snd (decodes.symm.trans decodes')
      rw [taken, taken', heard_sendFrame, heard_sendFrame]
      rfl
    · rw [decodes] at refused
      exact absurd rfl refused
  · obtain ⟨_, decodes, _⟩ | ⟨_, dropped'⟩ := ackSettings_cases env' { s with state, sent } f
    · rw [decodes] at refused
      exact absurd rfl refused
    · rw [dropped, dropped']
      rfl

theorem heard_handleContinuationFrame :
    (handleContinuationFrame env s f).2.heard =
      (handleContinuationFrame env' { s with state, sent } f).2.heard := by
  unfold handleContinuationFrame
  dsimp only
  cases s.streams f.sid with
  | none => rfl
  | some strm =>
    obtain ⟨stream, heard⟩ := heard_block env env' s state sent (continueStream strm f)
    dsimp only
    split
    · rfl
    · split
      · dsimp only
        rw [stream]
        exact Session.heard_setStream heard _ _
      · rfl

/-- Only a block that ends the process keeps its stream from being stored. -/
theorem heard_handleHeadersFrame (live : (handleHeadersFrame env s f).1 ≠ .aborted)
    (live' : (handleHeadersFrame env' { s with state, sent } f).1 ≠ .aborted) :
    (handleHeadersFrame env s f).2.heard =
      (handleHeadersFrame env' { s with state, sent } f).2.heard := by
  have opened : openStream { s with state, sent } f = openStream s f := rfl
  unfold handleHeadersFrame at live live' ⊢
  rw [opened] at live' ⊢
  by_cases ends : f.hasFlag Flag.endHeaders = true
  · obtain ⟨stream, heard⟩ := heard_block env env' s state sent (openStream s f)
    simp only [ends, ↓reduceIte] at live live' ⊢
    split at live
    · exact absurd rfl live
    · next going =>
      split at live'
      · exact absurd rfl live'
      · next going' =>
        rw [if_neg going, if_neg going', stream]
        dsimp only
        split
        · exact Session.heard_eraseStream heard _
        · exact Session.heard_setStream heard _ _
  · simp only [ends, Bool.false_eq_true, ↓reduceIte, reduceCtorEq]
    split <;> rfl

theorem heard_dispatch (live : (dispatch env s f).1 ≠ .aborted)
    (live' : (dispatch env' { s with state, sent } f).1 ≠ .aborted) :
    (dispatch env s f).2.heard = (dispatch env' { s with state, sent } f).2.heard := by
  unfold dispatch at live live' ⊢
  cases type : FrameType.ofCode f.type with
  | none => rfl
  | some t =>
    rw [type] at live live'
    cases t with
    | data => exact heard_handleDataFrame s f state sent
    | headers => exact heard_handleHeadersFrame env env' s f state sent live live'
    | priority => exact heard_handlePriorityFrame s f state sent
    | rstStream => exact heard_handleResetFrame s f state sent
    | settings =>
      dsimp only
      unfold handleSettingsFrame
      split_ifs
      · rfl
      · exact heard_ackSettings env env' s f state sent
      · rfl
    | ping =>
      dsimp only
      unfold handlePingFrame
      split_ifs
      · rfl
      · rw [heard_sendFrame, heard_sendFrame]
        rfl
    | continuation => exact heard_handleContinuationFrame env env' s f state sent
    | pushPromise | goAway | windowUpdate => rfl

variable {env env' s f} in
/-- **One frame.** It is understood alike, unless it ends the process. -/
theorem heard_handleFrame {s' : Session} (alike : s.heard = s'.heard)
    (live : (handleFrame env s f).1 ≠ .aborted) (live' : (handleFrame env' s' f).1 ≠ .aborted) :
    (handleFrame env s f).2.heard = (handleFrame env' s' f).2.heard := by
  obtain ⟨state, sent, rfl⟩ := Session.heard_eq alike
  exact heard_dispatch env env' (s.log (.handleFrame f)) f state sent live live'

end

/-! ## Reads -/

section
variable {env env' : Env} {s s' : Session}

/-- Where the process goes on, the first frame has not ended it. -/
theorem handleFrames_live {f : Frame} {fs : List Frame}
    (live : (handleFrames env (f :: fs) s).1 ≠ .aborted) :
    (handleFrame env s f).1 ≠ .aborted ∧
      handleFrames env (f :: fs) s = handleFrames env fs (handleFrame env s f).2 := by
  have never := handleFrame_not_threw env s f
  rw [handleFrames] at live ⊢
  rcases handled : handleFrame env s f with ⟨_ | _ | _, s'⟩ <;> rw [handled] at live never
  · exact ⟨Exit.noConfusion, rfl⟩
  · exact absurd rfl never
  · exact absurd rfl live

theorem heard_handleFrames {fs : List Frame} (alike : s.heard = s'.heard)
    (live : (handleFrames env fs s).1 ≠ .aborted) (live' : (handleFrames env' fs s').1 ≠ .aborted) :
    (handleFrames env fs s).1 = (handleFrames env' fs s').1 ∧
      (handleFrames env fs s).2.heard = (handleFrames env' fs s').2.heard := by
  induction fs generalizing s s' with
  | nil => exact ⟨rfl, alike⟩
  | cons f fs ih =>
    obtain ⟨first, step⟩ := handleFrames_live live
    obtain ⟨first', step'⟩ := handleFrames_live live'
    have next := heard_handleFrame alike first first'
    rw [step] at live ⊢
    rw [step'] at live' ⊢
    exact ih next live live'

end

end FrameHandler

/-- What of a client does not depend on what was answered. -/
def Client.heard (c : Client) : Session × Bytes := (c.session.heard, c.recvBuffer)

section
variable {env env' : Env}

theorem heard_handleBuffer {s s' : Session} (alike : s.heard = s'.heard) (buffer : Bytes) (n : Nat)
    (live : (handleBuffer env s buffer n).1 ≠ .aborted)
    (live' : (handleBuffer env' s' buffer n).1 ≠ .aborted) :
    (handleBuffer env s buffer n).1 = (handleBuffer env' s' buffer n).1 ∧
      (handleBuffer env s buffer n).2.heard = (handleBuffer env' s' buffer n).2.heard := by
  unfold handleBuffer at live live' ⊢
  split
  · exact ⟨rfl, congrArg (·, buffer) alike⟩
  · next frames parsed =>
    rw [parsed] at live live'
    obtain ⟨exit, heard⟩ := heard_handleFrames alike live live'
    exact ⟨exit, congrArg (·, buffer) heard⟩

theorem heard_doRequest {c c' : Client} (alike : c.heard = c'.heard) (read : ReadResult)
    (live : (doRequest env c read).1 ≠ .aborted) (live' : (doRequest env' c' read).1 ≠ .aborted) :
    (doRequest env c read).1 = (doRequest env' c' read).1 ∧
      (doRequest env c read).2.heard = (doRequest env' c' read).2.heard := by
  obtain ⟨s, buffer⟩ := c
  obtain ⟨s', buffer'⟩ := c'
  obtain ⟨heard, left⟩ := Prod.ext_iff.mp alike
  obtain rfl : buffer = buffer' := left
  obtain ⟨state, sent, rfl⟩ := Session.heard_eq heard
  cases read with
  | failed errno =>
    simp only [doRequest, Client.heard, true_and]
    split <;> rfl
  | closed => exact ⟨rfl, rfl⟩
  | bytes data =>
    obtain ⟨ok, t, sent₁, _⟩ := applySettings_returns env { s with state := .idle }
    obtain ⟨ok', t', sent₂, _⟩ := applySettings_returns env' { s with state := .idle, sent }
    have settled : t.heard = t'.heard := by
      have first := heard_sendFrame env { s with state := .idle }
        { type := FrameType.settings.code, payload := ({} : Settings).encode } 0
      have second := heard_sendFrame env' { s with state := .idle, sent }
        { type := FrameType.settings.code, payload := ({} : Settings).encode } 0
      rw [← applySettings, sent₁] at first
      rw [← applySettings, sent₂] at second
      exact first.trans second.symm
    unfold doRequest at live live' ⊢
    dsimp only at live live' ⊢
    generalize resize buffer bufferSize = whole at live live' ⊢
    split
    · next preface =>
      rw [if_pos preface, sent₁] at live
      rw [if_pos preface, sent₂] at live'
      rw [sent₁, sent₂]
      exact heard_handleBuffer settled _ _ live live'
    · next other =>
      have idle : Session.heard { s with state := .idle } =
          Session.heard { s with state := .idle, sent } := rfl
      rw [if_neg other] at live live'
      exact heard_handleBuffer idle _ _ live live'

/-- **Understanding.** The same reads, against other files and bindings and with other results of
the writes: unless the process ends, the connection gets as far, with the same streams, the same
compression table and the same settings, and has called for the same answers. -/
theorem understood (reads : List ReadResult) {c c' : Client} (alike : c.heard = c'.heard)
    (live : (doRequests env reads c).1 ≠ .aborted)
    (live' : (doRequests env' reads c').1 ≠ .aborted) :
    (doRequests env reads c).1 = (doRequests env' reads c').1 ∧
      (doRequests env reads c).2.heard = (doRequests env' reads c').2.heard := by
  induction reads generalizing c c' with
  | nil => exact ⟨rfl, alike⟩
  | cons read reads ih =>
    have first (live : (doRequest env c read).1 ≠ .aborted)
        (live' : (doRequest env' c' read).1 ≠ .aborted) := heard_doRequest alike read live live'
    simp only [doRequests] at live live' ⊢
    rcases done : doRequest env c read with ⟨e, t⟩
    rcases done' : doRequest env' c' read with ⟨e', t'⟩
    rw [done, done'] at first
    rw [done] at live
    rw [done'] at live'
    cases e with
    | returned ok =>
      cases e' with
      | returned ok' =>
        obtain ⟨_, heard⟩ := first nofun nofun
        exact ih heard live live'
      | threw => cases (first nofun nofun).1
      | aborted => exact absurd rfl live'
    | threw =>
      cases e' with
      | returned ok' => cases (first nofun nofun).1
      | threw => exact first nofun nofun
      | aborted => exact absurd rfl live'
    | aborted => exact absurd rfl live

end

/-- The server of `main`, on connections that are broken. -/
def brokenEnv : Env := { siteEnv with sslWrite := fun _ _ => -1 }

/-- A request that is answered, and one whose answer cannot be written. -/
theorem understood_broken :
    (doRequests siteEnv [.bytes (headersFrame 1 [0x82, 0x84]).bytes] {}).2.heard =
      (doRequests brokenEnv [.bytes (headersFrame 1 [0x82, 0x84]).bytes] {}).2.heard :=
  (understood _ rfl (by decide +kernel) (by decide +kernel)).2

end Http2Server
