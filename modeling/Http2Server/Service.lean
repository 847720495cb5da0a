import Http2Server.Conversation
import Http2Server.Departures
import Http2Server.Segmentation

/-!
# Service

The conversations of a server's clients, each of which comes in reads of its own, in
between the events of all the others.

- `reads_answered`: a conversation that reads bring whole frames of.
- `service`: what a client of the server is answered, whatever the other clients do.
-/

namespace Http2Server

open FrameHandler Hpack.Reference

/-! ## Reads of whole frames -/

/-- Reads that return whole frames, or fail. -/
inductive Brings : List ReadResult → List WireFrame → Prop
  | nil : Brings [] []
  | failed (errno : Nat) {reads : List ReadResult} {frames : List WireFrame}
      (rest : Brings reads frames) : Brings (.failed errno :: reads) frames
  | whole {group : List WireFrame} (some : group ≠ []) {reads : List ReadResult}
      {frames : List WireFrame} (rest : Brings reads frames) :
      Brings (.bytes (group.flatMap WireFrame.bytes) :: reads) (group ++ frames)

/-- The first that does not fail has the preface in front. -/
inductive Opens : List ReadResult → List WireFrame → Prop
  | failed (errno : Nat) {reads : List ReadResult} {frames : List WireFrame}
      (rest : Opens reads frames) : Opens (.failed errno :: reads) frames
  | preface (group : List WireFrame) {reads : List ReadResult} {frames : List WireFrame}
      (rest : Brings reads frames) :
      Opens (.bytes (prefaceStr ++ group.flatMap WireFrame.bytes) :: reads) (group ++ frames)

/-- The frame with the server's settings, which are the defaults. -/
def greeting : Frame := { type := FrameType.settings.code, payload := ({} : Settings).encode }

theorem region_preface (env : Env) (c : Client) (data : Bytes) :
    region env c (prefaceStr ++ data) =
      ((applySettings env { c.session with state := .idle }).2, data) := by
  have found : prefaceStr.isPrefixOf (prefaceStr ++ data ++
      (resize c.recvBuffer bufferSize).drop (prefaceStr ++ data).length) = true := by
    rw [List.isPrefixOf_iff_prefix, List.append_assoc]
    exact List.prefix_append _ _
  rw [region, if_pos found, List.drop_left]

theorem region_frames (env : Env) (c : Client) {group : List WireFrame} (some : group ≠ []) :
    region env c (group.flatMap WireFrame.bytes) =
      ({ c.session with state := .idle }, group.flatMap WireFrame.bytes) := by
  obtain ⟨f, group, rfl⟩ := List.exists_cons_of_ne_nil some
  obtain ⟨more, first⟩ := f.bytes_first
  have letter : prefaceStr = 0x50 :: prefaceStr.tail := by decide
  have other : prefaceStr.isPrefixOf ((f :: group).flatMap WireFrame.bytes ++
      (resize c.recvBuffer bufferSize).drop ((f :: group).flatMap WireFrame.bytes).length) =
      false := by
    rw [List.flatMap_cons, first, letter, List.cons_append, List.cons_append, List.isPrefixOf]
    rfl
  rw [region, other]
  rfl

theorem toFrames_arrive {group : List WireFrame} (arrive : ∀ f ∈ group, f.Arrives) :
    Frame.toFrames (group.flatMap WireFrame.bytes) = some (group.map WireFrame.frame) := by
  have same : group.map WireFrame.pushed = group.map WireFrame.frame :=
    List.map_congr_left fun f hf => f.pushed_iff.mpr (arrive f hf)
  rw [← List.append_nil (group.flatMap WireFrame.bytes), WireFrame.toFrames_whole, same]
  simp

/-- The frames of a wire are of the sizes that answers are sent for. -/
theorem sized_frame (f : WireFrame) : f.frame.sid < 2 ^ 31 ∧ f.frame.payload.length < 2 ^ 24 := by
  have size := f.size_le
  have sid : f.frame.sid = f.sid := by
    cases hp : f.priority <;> simp [WireFrame.frame, WireFrame.prioritise, WireFrame.head, hp]
  have payload : f.frame.payload = f.data := rfl
  rw [sid, payload]
  exact ⟨f.sid_lt, by omega⟩

namespace FrameHandler

/-- A conversation can be told in parts. -/
theorem Talks.split {t t'' : Talk} {fs gs : List Frame} {ms : List Message}
    (talks : Talks t (fs ++ gs) ms t'') :
    ∃ t' first second, ms = first ++ second ∧ Talks t fs first t' ∧ Talks t' gs second t'' := by
  induction fs generalizing t ms with
  | nil => exact ⟨t, [], ms, rfl, .nil t, talks⟩
  | cons f fs ih =>
    cases talks with
    | cons said rest =>
      obtain ⟨t', first, second, rfl, before, behind⟩ := ih rest
      exact ⟨t', _ :: first, second, rfl, .cons said before, behind⟩

/-- Nothing else of a session matters to a conversation. -/
theorem Follows.congr {s s' : Session} {t : Talk} (follows : Follows s t)
    (table : s'.hpackDecoder = s.hpackDecoder) (streams : s'.streams = s.streams) :
    Follows s' t := by
  refine ⟨?_, ?_, ?_⟩
  · rw [table]
    exact follows.table
  · rw [streams]
    exact follows.unused
  · rw [streams]
    exact follows.pending

end FrameHandler

section
variable {env : Env} (full : FullWrites env) {c : Client} {t t' : Talk}

include full

/-- A read of whole frames, in the session its region is handled in. -/
theorem doRequest_answered {data : Bytes} {s : Session} {group : List WireFrame}
    (begins : region env c data = (s, group.flatMap WireFrame.bytes))
    (follows : Follows s t) (arrive : ∀ f ∈ group, f.Arrives) {messages : List Message}
    (talks : Talks t (group.map WireFrame.frame) messages t')
    (bearable : ∀ m ∈ messages, Bearable env m) :
    ∃ c' parts, doRequest env c (.bytes data) = (.returned true, c') ∧
      c'.session.written = s.written ++ parts.flatten ∧
      List.Forall₂ (Answered env) messages parts ∧ Follows c'.session t' := by
  have sized : ∀ f ∈ group.map WireFrame.frame,
      f.sid < 2 ^ 31 ∧ f.payload.length < 2 ^ 24 := by
    intro f hf
    obtain ⟨g, _, rfl⟩ := List.mem_map.mp hf
    exact sized_frame g
  obtain ⟨s', parts, handled, written, answered, follows'⟩ :=
    conversation_answered full follows talks sized bearable
  obtain ⟨buffer, read⟩ := doRequest_bytes env c data
  rw [begins] at read
  simp only [toFrames_arrive arrive, handled] at read
  exact ⟨_, parts, read, written, answered, follows'⟩

/-- **Reads.** A conversation is answered read by read. -/
theorem reads_answered {reads : List ReadResult} {frames : List WireFrame}
    (brings : Brings reads frames) (arrive : ∀ f ∈ frames, f.Arrives)
    (follows : Follows c.session t) {messages : List Message}
    (talks : Talks t (frames.map WireFrame.frame) messages t')
    (bearable : ∀ m ∈ messages, Bearable env m) :
    ∃ c' parts, doRequests env reads c = (.returned true, c') ∧
      c'.session.written = c.session.written ++ parts.flatten ∧
      List.Forall₂ (Answered env) messages parts ∧ Follows c'.session t' := by
  induction brings generalizing c t messages with
  | nil =>
    cases talks
    exact ⟨c, [], rfl, (List.append_nil _).symm, .nil, follows⟩
  | failed errno rest ih =>
    have next : Follows (doRequest env c (.failed errno)).2.session t := by
      apply follows.congr
      · simp only [doRequest]
        split <;> rfl
      · simp only [doRequest]
        split <;> rfl
    have same : (doRequest env c (.failed errno)).2.session.written = c.session.written := by
      simp only [doRequest]
      split <;> rfl
    obtain ⟨c', parts, done, written, answered, last⟩ := ih arrive next talks bearable
    rw [same] at written
    exact ⟨c', parts, done, written, answered, last⟩
  | @whole group some reads frames rest ih =>
    rw [List.map_append] at talks
    obtain ⟨_, first, second, rfl, now, later⟩ := talks.split
    rw [List.forall_mem_append] at arrive bearable
    have idle : Follows { c.session with state := .idle } t := follows.congr rfl rfl
    obtain ⟨c₁, parts, read, written, answered, next⟩ :=
      doRequest_answered full (region_frames env c some) idle arrive.1 now bearable.1
    obtain ⟨c', others, done, wrote, rest, last⟩ := ih arrive.2 next later bearable.2
    refine ⟨c', parts ++ others, ?_, ?_, List.rel_append answered rest, last⟩
    · rw [doRequests, read]
      exact done
    · rw [wrote, written, List.flatten_append, List.append_assoc]
      rfl

/-- The greeting goes out before the first answer. -/
theorem opening_answered {reads : List ReadResult} {frames : List WireFrame}
    (opens : Opens reads frames) (arrive : ∀ f ∈ frames, f.Arrives)
    (follows : Follows c.session t) {messages : List Message}
    (talks : Talks t (frames.map WireFrame.frame) messages t')
    (bearable : ∀ m ∈ messages, Bearable env m) :
    ∃ c' parts, doRequests env reads c = (.returned true, c') ∧
      c'.session.written = c.session.written ++ (greeting.bytes ++ parts.flatten) ∧
      List.Forall₂ (Answered env) messages parts := by
  induction opens generalizing c with
  | failed errno rest ih =>
    have next : Follows (doRequest env c (.failed errno)).2.session t := by
      apply follows.congr
      · simp only [doRequest]
        split <;> rfl
      · simp only [doRequest]
        split <;> rfl
    have same : (doRequest env c (.failed errno)).2.session.written = c.session.written := by
      simp only [doRequest]
      split <;> rfl
    obtain ⟨c', parts, done, written, answered⟩ := ih arrive next talks
    rw [same] at written
    exact ⟨c', parts, done, written, answered⟩
  | @preface group reads frames rest =>
    rw [List.map_append] at talks
    obtain ⟨_, first, second, rfl, now, later⟩ := talks.split
    rw [List.forall_mem_append] at arrive bearable
    have small : greeting.payload.length < 2 ^ 24 := by
      rw [greeting, Settings.encode_default]
      decide
    obtain ⟨_, greeted⟩ := sendFrame_written full { c.session with state := .idle } small 0
    have idle : Follows (applySettings env { c.session with state := .idle }).2 t := by
      apply follows.congr
      · rw [applySettings, sendFrame]
        split <;> rfl
      · exact sendFrame_streams env _ _ 0
    obtain ⟨c₁, parts, read, written, answered, next⟩ :=
      doRequest_answered full (region_preface env c _) idle arrive.1 now bearable.1
    obtain ⟨c', others, done, wrote, rest, _⟩ :=
      reads_answered full rest arrive.2 next later bearable.2
    have begun : (applySettings env { c.session with state := .idle }).2.written =
        c.session.written ++ greeting.bytes := greeted
    refine ⟨c', parts ++ others, ?_, ?_, List.rel_append answered rest⟩
    · rw [doRequests, read]
      exact done
    · rw [wrote, written, begun, List.flatten_append]
      simp only [List.append_assoc]

end

/-! ## The events of a client -/

/-- The events of a client, as its reads: none while the handshake waits, and one each from
the event on in which it is done. -/
inductive Attends (env : Env) : List ClientEvent → List ReadResult → Prop
  | waits {e : ClientEvent} {code : Nat} (timely : e.timedOut = false)
      (wants : code ∈ sslWants) (error : e.accept = .error code) {events : List ClientEvent}
      {reads : List ReadResult} (rest : Attends env events reads) : Attends env (e :: events) reads
  | shaken {e : ClientEvent} (accept : e.accept = .accepted (ascii "h2"))
      {events : List ClientEvent} (each : ∀ e' ∈ e :: events, e'.timedOut = false ∧ e'.env = env) :
      Attends env (e :: events) ((e :: events).map (·.read))

namespace Client

/-- What some events make of a client, one after the other. -/
def attend (events : List ClientEvent) (c : Client) : Option Client :=
  events.foldlM (fun c e => c.after e) c

variable {env : Env} {c c' : Client}

/-- A request that returns keeps the client, and leaves it idle. -/
theorem request_returned {e : ClientEvent} {ok : Bool} (idle : c.session.state = .idle)
    (done : doRequest e.env c e.read = (.returned ok, c')) :
    c.request e = some (some c') ∧ c'.session.state = .idle := by
  have rests := doRequest_idle e.env c e.read
  rw [done] at rests
  rw [request, if_neg (not_not.mpr idle), done]
  exact ⟨rfl, rests⟩

theorem doRequests_first {read : ReadResult} {rest : List ReadResult}
    (done : doRequests env (read :: rest) c = (.returned true, c')) :
    ∃ ok next, doRequest env c read = (.returned ok, next) ∧
      doRequests env rest next = (.returned true, c') := by
  rw [doRequests] at done
  rcases first : doRequest env c read with ⟨ok | _ | _, left⟩ <;> rw [first] at done
  · exact ⟨ok, left, rfl, done⟩
  · cases done
  · cases done

theorem attend_idle {events : List ClientEvent} (idle : c.session.state = .idle)
    (each : ∀ e ∈ events, e.timedOut = false ∧ e.env = env)
    (done : doRequests env (events.map (·.read)) c = (.returned true, c')) :
    attend events c = some c' := by
  induction events generalizing c with
  | nil =>
    cases done
    rfl
  | cons e events ih =>
    rw [List.forall_mem_cons] at each
    obtain ⟨⟨timely, same⟩, rest⟩ := each
    obtain ⟨ok, next, read, onwards⟩ := doRequests_first done
    rw [← same] at read
    obtain ⟨kept, rests⟩ := request_returned idle read
    have visited : c.after e = some next := by
      simp only [after, visit, timely, idle, kept, Bool.false_eq_true, reduceCtorEq, ↓reduceIte,
        Option.join_some]
    rw [attend, List.foldlM_cons, visited]
    exact ih rests rest onwards

/-- The events of a client come to its reads. -/
theorem attend_reads {events : List ClientEvent} {reads : List ReadResult}
    (attends : Attends env events reads) (shaking : c.session.state = .handshake)
    (done : doRequests env reads c = (.returned true, c')) : attend events c = some c' := by
  induction attends generalizing c with
  | @waits e code timely wants error events reads rest ih =>
    have waiting : c.after e = some c := by
      obtain ⟨accepted, _⟩ | ⟨_, again⟩ | ⟨failed, _⟩ := continueHandshake_cases shaking e.accept
      · cases error.symm.trans accepted
      · simp [after, visit, timely, shaking, again]
      · rw [error] at failed
        exact absurd wants failed
    rw [attend, List.foldlM_cons, waiting]
    exact ih shaking done
  | @shaken e accept events each =>
    rw [List.forall_mem_cons] at each
    obtain ⟨⟨timely, same⟩, rest⟩ := each
    obtain ⟨ok, next, read, onwards⟩ := doRequests_first done
    -- A read begins with the client idle, whatever it was.
    have again : doRequest e.env (c.setState .idle) e.read = (.returned ok, next) := by
      rw [← same] at read
      exact read
    obtain ⟨kept, rests⟩ := request_returned rfl again
    have entered : c.after e = some next := by
      obtain ⟨_, accepted⟩ | ⟨⟨code, _, error⟩, _⟩ | ⟨failed, _⟩ :=
        continueHandshake_cases shaking e.accept
      · simp [after, visit, timely, shaking, accepted, kept]
      · cases accept.symm.trans error
      · rw [accept] at failed
        exact absurd rfl failed
    rw [attend, List.foldlM_cons, entered]
    exact attend_idle rests rest onwards

end Client

/-- The labels of a client that was accepted, and of the events handled for it. -/
def present (id start : Nat) (visits : List (Nat × ClientEvent)) : List Label :=
  .accepted id start :: visits.map fun v => .handled id v.1 v.2

theorem alone_present (id start : Nat) (visits : List (Nat × ClientEvent)) :
    alone (present id start visits) = Client.attend (visits.map Prod.snd) {} := by
  have stays (c : Option Client) :
      ((visits.map fun v => Label.handled id v.1 v.2).map Label.action).foldl
        (Lib.Multiplex.stepOne Client.after) c =
      c.bind (Client.attend (visits.map Prod.snd)) := by
    induction visits generalizing c with
    | nil => cases c <;> rfl
    | cons v visits ih =>
      simp only [List.map_cons, List.foldl_cons]
      rw [ih]
      cases c <;> rfl
  exact stays (some {})

namespace Process

variable {s : Startup} {inherited : Finset Nat} {limit : Nat} {p₀ p : Process}
  {labels : List Label}

/-- **Service.** A client that begins with the preface, and whose reads bring a conversation
in whole frames, has been sent the server's settings and one answer for each of its messages,
in order, and nothing else, whatever the other clients are doing meanwhile. -/
theorem service (kept : s.Kept limit inherited) (started : s.start inherited = some p₀)
    (run : Run (Fair limit) p₀ labels p) {id start : Nat} {visits : List (Nat × ClientEvent)}
    (mine : own id labels = present id start visits) {env : Env} (full : FullWrites env)
    {reads : List ReadResult} (attends : Attends env (visits.map Prod.snd) reads)
    {frames : List WireFrame} (opens : Opens reads frames) (arrive : ∀ f ∈ frames, f.Arrives)
    {messages : List Message} {t : Talk}
    (talks : Talks .new (frames.map WireFrame.frame) messages t)
    (bearable : ∀ m ∈ messages, Bearable env m) :
    ∃ c parts, p.manager.table id = some c ∧
      c.session.written = greeting.bytes ++ parts.flatten ∧
      List.Forall₂ (Answered env) messages parts := by
  obtain ⟨c, parts, done, written, answered⟩ :=
    opening_answered full (c := {}) opens arrive follows_new talks bearable
  refine ⟨c, parts, ?_, written, answered⟩
  rw [run_table kept started run, run_own, mine, alone_present]
  exact Client.attend_reads attends rfl done

open Segmentation in
/-- A browser that sends everything at once: the preface, its settings, and a GET for `/`. -/
def browser : Occasion :=
  { quiet with
    now := 0
    accept := .accepted (ascii "h2")
    read := .bytes (prefaceStr ++ [settingsFrame, getFrame].flatMap WireFrame.bytes)
    fits := show _ ≤ _ by decide }

open Segmentation in
theorem service_site : ∃ p₀ p : Process, siteStartup.start {0, 1, 2} = some p₀ ∧
    Run (Fair 1024) p₀ [.accepted 1 0, .handled 1 0 (browser.event 0)] p ∧
    ∃ c parts, p.manager.table 1 = some c ∧
      c.session.written = greeting.bytes ++ parts.flatten ∧
      List.Forall₂ (Answered siteEnv) [.settings, .request 1 (ascii "/")] parts := by
  have full : FullWrites siteEnv := fun _ _ => rfl
  have attends : Attends siteEnv ([(0, browser.event 0)].map Prod.snd) [browser.read] :=
    .shaken rfl fun e' he => by
      obtain rfl := List.mem_singleton.mp he
      exact ⟨rfl, rfl⟩
  have opens : Opens [browser.read] ([settingsFrame, getFrame] ++ []) := .preface _ .nil
  have arrive : ∀ f ∈ [settingsFrame, getFrame], f.Arrives := by decide
  have asks : Asks ⟨[], 4096⟩ getFrame.frame.payload (ascii "/") ⟨[], 4096⟩ :=
    ⟨[.indexed 2, .indexed 4], [Hpack.entry ":method" "GET", Hpack.entry ":path" "/"],
      by decide, by decide, by decide +kernel, by decide⟩
  have talks : Talks .new ([settingsFrame, getFrame].map WireFrame.frame)
      [.settings, .request 1 (ascii "/")] _ :=
    .cons (.settings (by decide +kernel))
      (.cons (.request rfl (by decide) (by decide) asks) (.nil _))
  have bearable : ∀ m ∈ [Message.settings, .request 1 (ascii "/")], Bearable siteEnv m := by
    have page : ∀ content ∈ siteEnv.binder.getContent siteEnv.files (ascii "/"),
        content.data ≠ [] → (ascii "/").length < 127 ∧ content.data.length < 2 ^ 64 := by
      decide +kernel
    simpa [Bearable] using page
  obtain ⟨c, _, done, _⟩ :=
    opening_answered full (c := {}) opens arrive follows_new talks bearable
  have attended := Client.attend_reads (c := {}) attends rfl done
  have visited : Client.visit {} (browser.event 0) = some (some c) := by
    rw [Client.attend, List.map_cons, List.foldlM_cons] at attended
    obtain ⟨c', became, same⟩ := Option.bind_eq_some_iff.mp attended
    rw [← Option.some.inj same]
    exact Option.join_eq_some_iff.mp became
  have still : c.session.fdState ≠ .closed := by
    rw [Ne, Client.visit_fdState 1 5 visited]
    rintro (closed | ⟨_, closed | ⟨data, frames, read, parsed, f, among, type⟩⟩)
    · cases closed
    · cases closed
    · cases read
      rw [region_preface, toFrames_arrive arrive] at parsed
      cases parsed
      revert type
      exact (by decide : ∀ f ∈ [settingsFrame, getFrame].map WireFrame.frame,
        ¬ f.type = FrameType.goAway.code) f among
  obtain ⟨p₀, p, started, run, _⟩ := kept_run rfl visited still
  exact ⟨p₀, p, started, run,
    service siteStartup_kept started run rfl full attends opens arrive talks bearable⟩

end Process

end Http2Server
