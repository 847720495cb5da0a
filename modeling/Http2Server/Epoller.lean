import Http2Server.ClientManager
import Http2Server.HeaderBlocks

/-!
# The events of clients

`Epoller::epollLoop` goes on with its pointer to a client after `handleClient`,
which may have removed the client. `present_iff` says when it has not.
-/

namespace Http2Server

open FrameHandler

/-! ## Exceptions -/

section
variable (env : Env) (s : Session)

theorem serve_not_threw (strm : Stream) {path : Bytes}
    (h : strm.headers.first (ascii ":path") = some path) : (serve env s strm).1 ≠ .threw := by
  rw [serve_eq env s strm h]
  dsimp only
  split
  · simp
  · split
    · simp
    · split
      · simp
      · split <;> simp

theorem processEndHeader_not_threw (strm : Stream) :
    (processEndHeader env s strm).1 ≠ .threw := by
  rw [processEndHeader_eq]
  split
  · simp
  · next some =>
    obtain ⟨path, requested⟩ := Option.ne_none_iff_exists'.mp some
    exact serve_not_threw env _ _ (first_received requested)

theorem sendFrame_not_threw (f : Frame) (weight : Int) :
    (sendFrame env s f weight).1 ≠ .threw := by
  unfold sendFrame
  split <;> simp

theorem ackSettings_not_threw (f : Frame) : (ackSettings env s f).1 ≠ .threw := by
  obtain ⟨_, _, taken⟩ | ⟨_, dropped⟩ := ackSettings_cases env s f
  · simp [taken]
  · simp [dropped]

/-- No exception gets past `handleFrame`. -/
theorem handleFrame_not_threw (f : Frame) : (handleFrame env s f).1 ≠ .threw := by
  have effect := dispatch_effect env (s.log (.handleFrame f)) f
  generalize handled : dispatch env (s.log (.handleFrame f)) f = r at effect
  cases effect with
  | nothing ok => simp [handleFrame, handled]
  | stream kept => simp [handleFrame, handled]
  | @block strm completes s' e kept =>
    rw [(handleFrame_completed env (s := s) completes).1]
    split
    · exact processEndHeader_not_threw env _ strm
    · simp
  | settings =>
    rw [handleFrame, handled]
    exact ackSettings_not_threw env _ f
  | ping =>
    rw [handleFrame, handled]
    exact sendFrame_not_threw env _ _ 0
  | goAway =>
    rw [handleFrame, handled]
    simp [handleGoAwayFrame]

theorem handleFrames_not_threw (fs : List Frame) : (handleFrames env fs s).1 ≠ .threw := by
  induction fs generalizing s with
  | nil => simp [handleFrames]
  | cons f fs ih =>
    have first := handleFrame_not_threw env s f
    rw [handleFrames]
    rcases handled : handleFrame env s f with ⟨_ | _ | _, s'⟩ <;> rw [handled] at first
    · exact ih s'
    · exact first
    · simp

end

/-- A frame of the bytes is padded and has no payload. -/
def Throwing (bytes : Bytes) : Prop :=
  ∃ rest, Frame.Boundary bytes rest ∧ Frame.emptyPadded rest = true

/-- `doRequest` throws where cutting what was read into frames does. -/
theorem doRequest_threw_iff (env : Env) (c : Client) {read : ReadResult} (fits : read.Fits) :
    (doRequest env c read).1 = .threw ↔
      ∃ data, read = .bytes data ∧ Throwing (region env c data).2 := by
  cases read with
  | failed errno => simp [doRequest]
  | closed => simp [doRequest]
  | bytes data =>
    obtain ⟨buffer, read⟩ := doRequest_bytes env c data
    have short : (region env c data).2.length < 2 ^ 63 := by
      have cut := length_region env c data
      simp only [ReadResult.Fits, bufferSize] at fits
      omega
    simp only [ReadResult.bytes.injEq, exists_eq_left']
    rw [read, Throwing, ← Frame.toFrames_none_iff short]
    split
    · next threw => exact iff_of_true rfl threw
    · next frames parsed =>
      rw [parsed]
      exact iff_of_false (handleFrames_not_threw env _ frames) (by simp)

/-! ## Handling an event -/

/-- The event comes to a call of `doRequest`. -/
def Requesting (c : ClientRecord) (e : ClientEvent) : Prop :=
  c.client.session.state = .idle ∨
    c.client.session.state = .handshake ∧ e.accept = .accepted (ascii "h2")

/-- What is read in the event, if anything is, can be cut into frames. -/
def Readable (c : ClientRecord) (e : ClientEvent) : Prop :=
  ∀ data, e.read = .bytes data → ¬ Throwing (region e.env c.client data).2

/-- Nothing about the event has the client removed. -/
structure Spared (c : ClientRecord) (e : ClientEvent) : Prop where
  timely : e.timedOut = false
  unclosed : c.client.session.state ≠ .closed
  shaken : c.client.session.state = .handshake → ¬ e.accept.Failed
  readable : Requesting c e → Readable c e

namespace ClientManager

/-- The client is kept, or the process has ended. -/
def Kept (m : ClientManager) (c : ClientRecord) (r : Option ClientManager) : Prop :=
  r = none ∨ ∃ client, r = some (m.setClient c.id client)

def Removed (c : ClientRecord) (r : Option ClientManager) : Prop :=
  ∃ m : ClientManager, r = some (m.removeClient c.id)

variable (m : ClientManager) (c : ClientRecord) (e : ClientEvent)

theorem handleRequest_spec {client : Client} (idle : client.session.state = .idle)
    (same : ∀ data, region e.env client data = region e.env c.client data) :
    Readable c e ∧ Kept m c (m.handleRequest c.id client e) ∨
      ¬ Readable c e ∧ Removed c (m.handleRequest c.id client e) := by
  have threw : (doRequest e.env client e.read).1 = .threw ↔ ¬ Readable c e := by
    rw [doRequest_threw_iff e.env client e.fits, Readable]
    simp only [same, not_forall, not_not, exists_prop]
  rw [handleRequest, if_neg (not_not.mpr idle)]
  rcases done : doRequest e.env client e.read with ⟨_ | _ | _, client'⟩ <;> rw [done] at threw
  · exact .inl ⟨not_not.mp fun h => absurd (threw.mpr h) (by simp), .inr ⟨client', rfl⟩⟩
  · exact .inr ⟨threw.mp rfl, _, rfl⟩
  · exact .inl ⟨not_not.mp fun h => absurd (threw.mpr h) (by simp), .inl rfl⟩

variable {m c e}

/-- Once a request is made, all depends on what is read. -/
theorem Spared.iff_readable (timely : e.timedOut = false)
    (unclosed : c.client.session.state ≠ .closed)
    (shaken : c.client.session.state = .handshake → ¬ e.accept.Failed)
    (requesting : Requesting c e) : Spared c e ↔ Readable c e :=
  ⟨fun spared => spared.readable requesting, fun readable =>
    ⟨timely, unclosed, shaken, fun _ => readable⟩⟩

theorem handshake_spec (timely : e.timedOut = false)
    (shaking : c.client.session.state = .handshake) :
    Spared c e ∧ Kept m c (m.handleClient c e) ∨
      ¬ Spared c e ∧ Removed c (m.handleClient c e) := by
  have unclosed : c.client.session.state ≠ .closed := by simp [shaking]
  have step {r : Int × Client} (h : c.client.continueHandshake e.accept = r) :
      m.handleClient c e =
        if r.1 = 1 then m.handleRequest c.id (r.2.setState .idle) e
        else if r.1 < 0 then some ((m.setClient c.id r.2).removeClient c.id)
        else some (m.setClient c.id r.2) := by
    simp only [handleClient, timely, shaking, h, Bool.false_eq_true, ↓reduceIte, reduceCtorEq]
  obtain ⟨accepted, done⟩ | ⟨⟨code, wants, error⟩, open'⟩ | ⟨failed, lost⟩ :=
    Client.continueHandshake_cases shaking e.accept
  · have shaken : c.client.session.state = .handshake → ¬ e.accept.Failed := by
      intro _
      simp [accepted, SslAccept.Failed]
    rw [Spared.iff_readable timely unclosed shaken (.inr ⟨shaking, accepted⟩), step done,
      if_pos rfl]
    exact handleRequest_spec m c e rfl fun _ => rfl
  · rw [step open']
    refine .inl ⟨⟨timely, unclosed, ?_, ?_⟩, .inr ⟨c.client, rfl⟩⟩
    · intro _
      simpa [error, SslAccept.Failed] using wants
    · rintro (idle | ⟨_, accepted⟩)
      · simp [shaking] at idle
      · simp [error] at accepted
  · rw [step lost]
    exact .inr ⟨fun spared => spared.shaken shaking failed, _, rfl⟩

variable (m c e)

/-- **Removal.** A client is kept exactly where its event spares it. -/
theorem handleClient_spec :
    Spared c e ∧ Kept m c (m.handleClient c e) ∨
      ¬ Spared c e ∧ Removed c (m.handleClient c e) := by
  by_cases late : e.timedOut = true
  · refine .inr ⟨?_, m, if_pos late⟩
    intro spared
    exact absurd (late.symm.trans spared.timely) (by decide)
  have timely : e.timedOut = false := by simpa using late
  by_cases closed : c.client.session.state = .closed
  · refine .inr ⟨fun spared => spared.unclosed closed, m, ?_⟩
    rw [handleClient, if_neg late, if_pos closed]
  by_cases shaking : c.client.session.state = .handshake
  · exact handshake_spec timely shaking
  rw [handleClient, if_neg late, if_neg closed, if_neg shaking]
  have shaken : c.client.session.state = .handshake → ¬ e.accept.Failed :=
    fun h => absurd h shaking
  by_cases idle : c.client.session.state = .idle
  · rw [Spared.iff_readable timely closed shaken (.inl idle)]
    exact handleRequest_spec m c e idle fun _ => rfl
  · refine .inl ⟨⟨timely, closed, shaken, ?_⟩, .inr ⟨c.client, if_pos idle⟩⟩
    rintro (h | ⟨h, _⟩)
    · exact absurd h idle
    · exact absurd h shaking

/-- Where its event spares it, a client is still found; else it is not. -/
theorem getClient_handleClient {fd : Nat} (h : m.clients[fd]? = some c) :
    ∀ m', m.handleClient c e = some m' →
      Spared c e ∧ (∃ client, m'.clients[fd]? = some { c with client }) ∨
        ¬ Spared c e ∧ m'.getClient c.id = none := by
  intro m' handled
  obtain ⟨spared, ended | ⟨client, kept⟩⟩ | ⟨lost, old, removed⟩ := handleClient_spec m c e
  · rw [ended] at handled
    cases handled
  · obtain rfl := Option.some.inj (kept.symm.trans handled)
    exact .inl ⟨spared, client, setClient_fd h client⟩
  · obtain rfl := Option.some.inj (removed.symm.trans handled)
    exact .inr ⟨lost, getClient_removeClient old c.id⟩

end ClientManager

/-! ## The loop -/

/-- What the loop does for an event on the descriptor of a client. -/
inductive Visit where
  /-- The process has ended in `handleClient`. -/
  | ended
  /-- The pointer is read after its client has been removed. -/
  | missing
  | kept (m : ClientManager)
  /-- The loop removes the client itself. -/
  | removed (m : ClientManager)

namespace Epoller

/-- `getType` is `CLIENT`. -/
def isClient (m : ClientManager) (fd : Nat) : Bool :=
  m.clients.toList.any fun entry => entry.2.fd = fd

/-- The descriptor's state is read first; nothing happens between that and the
other reads, which are of the id. -/
def clientEvent (m : ClientManager) (fd : Nat) (e : ClientEvent) : Visit :=
  if isClient m fd then
    match m.clients[fd]? with
    | none => .kept m
    | some c =>
      match m.handleClient c e with
      | none => .ended
      | some m =>
        match m.getClient c.id with
        | none => .missing
        | some client =>
          if client.client.session.fdState = .closed then .removed (m.removeClient client.id)
          else .kept m
  else .kept m

/-- Every later access to the client finds it. -/
def Present (m : ClientManager) (fd : Nat) (e : ClientEvent) : Prop :=
  clientEvent m fd e ≠ .missing

theorem isClient_of_fd {m : ClientManager} {fd : Nat} {c : ClientRecord}
    (h : m.clients[fd]? = some c) : isClient m fd = true := by
  rw [isClient, List.any_eq_true]
  refine ⟨(fd, c), Std.TreeMap.mem_toList_iff_getElem?_eq_some.mpr h, ?_⟩
  exact decide_eq_true (m.registered.keyed fd c h)

/-- **Presence.** The loop finds the client of an event again exactly where the
event spares it. A client that the loop removes itself is out of the map when it
is deleted. -/
theorem present_iff (m : ClientManager) (fd : Nat) (e : ClientEvent) :
    (Present m fd e ↔ ∀ c, m.clients[fd]? = some c → Spared c e) ∧
      ∀ m', clientEvent m fd e = .removed m' → m'.clients[fd]? = none := by
  unfold Present clientEvent
  cases found : m.clients[fd]? with
  | none => simp
  | some c =>
    rw [if_pos (isClient_of_fd found)]
    simp only [Option.some.injEq, forall_eq']
    cases handled : m.handleClient c e with
    | none =>
      obtain ⟨spared, _⟩ | ⟨_, _, removed⟩ := ClientManager.handleClient_spec m c e
      · simp [spared]
      · simp [handled] at removed
    | some m₁ =>
      obtain ⟨spared, client, stays⟩ | ⟨lost, gone⟩ :=
        ClientManager.getClient_handleClient m c e found m₁ handled
      · have again : m₁.getClient c.id = some { c with client } :=
          ClientManager.getClient_of_fd stays
        have deleted := ClientManager.removeClient_fd stays
        simp only [again]
        split
        · refine ⟨iff_of_true (by simp) spared, ?_⟩
          intro m' removed
          cases removed
          exact deleted
        · exact ⟨iff_of_true (by simp) spared, by simp⟩
      · simp [gone, lost]

/-- A client that has just been accepted, and speaks no TLS. -/
def plainClient : ClientManager := ClientManager.empty.acceptClient 5

def plainText : ClientEvent where
  env := siteEnv
  timedOut := false
  accept := .error 1
  read := .failed eagain
  fits := trivial

theorem plainText_missing : ¬ Present plainClient 5 plainText := by
  rw [Present, not_not]
  rfl

end Epoller

end Http2Server
