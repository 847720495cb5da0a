import Http2Server.Isolation

/-!
# How clients leave

A client is removed by `handleClient`, or by the loop behind it, which goes by what a
GOAWAY frame or the end of the stream leaves in the descriptor's state.

- `doRequest_fdState`: what closes a descriptor's state.
- `departs_iff`: the events that are a client's last.
- `run_server`: a run of the loop is steps of the server of `ClientStates`, with the same calls.
-/

namespace Http2Server

open Lib FrameHandler

/-! ## What closes a descriptor -/

section
variable (env : Env) (s : Session)

theorem sendFrame_fdState (f : Frame) (weight : Int) :
    (sendFrame env s f weight).2.fdState = s.fdState := by
  unfold sendFrame
  split <;> rfl

theorem ackSettings_fdState (f : Frame) : (ackSettings env s f).2.fdState = s.fdState := by
  obtain ⟨settings, _, taken⟩ | ⟨_, dropped⟩ := ackSettings_cases env s f
  · rw [taken]
    exact sendFrame_fdState env { s with settings } _ 0
  · rw [dropped]

theorem processEndHeader_fdState (strm : Stream) :
    (processEndHeader env s strm).2.2.fdState = s.fdState := by
  apply processEndHeader_invariant env strm (P := (·.fdState = s.fdState)) rfl
  · exact fun _ _ same => same
  · exact fun _ _ _ _ _ _ _ _ same => same

theorem handleFrame_goAway {f : Frame} (type : f.type = FrameType.goAway.code) :
    (handleFrame env s f).2.fdState = .closed := by
  rw [handleFrame, dispatch, type, FrameType.ofCode_code]
  rfl

theorem handleFrame_fdState {f : Frame} (other : f.type ≠ FrameType.goAway.code) :
    (handleFrame env s f).2.fdState = s.fdState := by
  have effect := dispatch_effect env (s.log (.handleFrame f)) f
  have stays {s s' : Session} (kept : Kept s f.sid s') : s'.fdState = s.fdState := by
    cases kept <;> rfl
  rw [handleFrame]
  generalize dispatch env (s.log (.handleFrame f)) f = r at effect
  cases effect with
  | nothing ok => rfl
  | stream kept =>
    have same := stays kept
    exact same
  | @block strm completes s' e kept =>
    have block := processEndHeader_fdState env (s.log (.handleFrame f)) strm
    obtain rfl | kept := kept
    · exact block
    · exact (stays kept).trans block
  | settings => exact ackSettings_fdState env _ f
  | ping => exact sendFrame_fdState env _ _ 0
  | goAway type => exact absurd type other

theorem handleFrames_fdState {fs : List Frame} {ok : Bool}
    (done : (handleFrames env fs s).1 = .returned ok) :
    (handleFrames env fs s).2.fdState = .closed ↔
      s.fdState = .closed ∨ ∃ f ∈ fs, f.type = FrameType.goAway.code := by
  induction fs generalizing s with
  | nil => simp [handleFrames]
  | cons f fs ih =>
    rw [handleFrames] at done ⊢
    rcases handled : handleFrame env s f with ⟨_ | _ | _, s'⟩
    · rw [handled] at done
      have onwards : (handleFrames env fs s').2.fdState = .closed ↔ _ := ih s' done
      simp only [List.exists_mem_cons_iff]
      rw [onwards]
      by_cases type : f.type = FrameType.goAway.code
      · have closed : s'.fdState = .closed := by
          simpa only [handled] using handleFrame_goAway env s type
        simp [closed, type]
      · have same : s'.fdState = s.fdState := by
          simpa only [handled] using handleFrame_fdState env s type
        simp [same, type]
    · rw [handled] at done
      cases done
    · rw [handled] at done
      cases done

end

/-- The peer has closed the connection, or says in what was read that it goes away. -/
def Farewell (env : Env) (c : Client) (read : ReadResult) : Prop :=
  read = .closed ∨ ∃ data frames, read = .bytes data ∧
    Frame.toFrames (region env c data).2 = some frames ∧
    ∃ f ∈ frames, f.type = FrameType.goAway.code

theorem region_fdState (env : Env) (c : Client) (data : Bytes) :
    (region env c data).1.fdState = c.session.fdState := by
  unfold region
  dsimp only
  split
  · exact sendFrame_fdState env _ _ 0
  · rfl

/-- **Closing.** A read that returns leaves the descriptor's state closed where it was so, or
where it is a farewell. -/
theorem doRequest_fdState {env : Env} {c c' : Client} {read : ReadResult} {ok : Bool}
    (done : doRequest env c read = (.returned ok, c')) :
    c'.session.fdState = .closed ↔ c.session.fdState = .closed ∨ Farewell env c read := by
  cases read with
  | failed errno =>
    rw [doRequest] at done
    cases done
    simp only [Farewell, reduceCtorEq, false_and, exists_false, or_false]
    split <;> exact Iff.rfl
  | closed =>
    rw [doRequest] at done
    cases done
    exact iff_of_true rfl (.inr (.inl rfl))
  | bytes data =>
    obtain ⟨buffer, read⟩ := doRequest_bytes env c data
    rw [done] at read
    split at read
    · cases read
    · next frames parsed =>
      have exit := (congrArg Prod.fst read).symm
      obtain rfl := congrArg Prod.snd read
      rw [handleFrames_fdState env _ exit, region_fdState]
      simp [Farewell, parsed]

/-! ## Visits that keep a client -/

namespace Client

variable {c c' : Client} {e : ClientEvent}

theorem request_fdState (idle : c.session.state = .idle) (kept : c.request e = some (some c')) :
    c'.session.fdState = .closed ↔
      c.session.fdState = .closed ∨ Farewell e.env c e.read := by
  rw [request, if_neg (not_not.mpr idle)] at kept
  split at kept
  · next ok left done =>
    cases kept
    exact doRequest_fdState done
  · cases kept
  · cases kept

/-- What a visit that keeps a client leaves of its descriptor's state. -/
theorem visit_fdState (id fd : Nat) (kept : c.visit e = some (some c')) :
    c'.session.fdState = .closed ↔ c.session.fdState = .closed ∨
      Requesting ⟨id, fd, c⟩ e ∧ Farewell e.env c e.read := by
  unfold visit at kept
  split_ifs at kept with late closed shaking
  · cases kept
  · cases kept
  · obtain ⟨accepted, done⟩ | ⟨⟨code, _, error⟩, again⟩ | ⟨_, lost⟩ :=
      continueHandshake_cases shaking e.accept
    · simp only [done, ↓reduceIte] at kept
      rw [request_fdState rfl kept]
      have asked : Requesting ⟨id, fd, c⟩ e := .inr ⟨shaking, accepted⟩
      -- Neither the descriptor's state nor the region depends on the state that is set.
      have same : Farewell e.env (c.setState .idle) e.read ↔ Farewell e.env c e.read := Iff.rfl
      rw [same, and_iff_right asked]
      rfl
    · rw [again] at kept
      cases kept
      have unasked : ¬ Requesting ⟨id, fd, c⟩ e := by
        simp [Requesting, shaking, error]
      simp [unasked]
    · rw [lost] at kept
      cases kept
  · by_cases idle : c.session.state = .idle
    · have asked : Requesting ⟨id, fd, c⟩ e := .inl idle
      rw [request_fdState idle kept, and_iff_right asked]
    · have unasked : ¬ Requesting ⟨id, fd, c⟩ e := by
        simp [Requesting, shaking, idle]
      rw [request, if_pos idle] at kept
      cases kept
      simp [unasked]

end Client

/-- No client has a closed descriptor's state. -/
def ClientManager.Staying (m : ClientManager) : Prop :=
  ∀ id client, m.table id = some client → client.session.fdState ≠ .closed

namespace Process

variable {s : Startup} {inherited : Finset Nat} {limit : Nat} {p₀ p p' : Process}
  {labels more : List Label} {fd : Nat} {o : Occasion} {c : ClientRecord}

/-- The table once `handleClient` has returned. -/
theorem table_handled {m : ClientManager} {e : ClientEvent}
    (found : p.manager.clients[fd]? = some c) (handled : p.manager.handleClient c e = some m) :
    m.table = Function.update p.manager.table c.id (c.client.after e) := by
  have visited := p.manager.handleClient_visit e c
  rw [handled] at visited
  exact ClientManager.table_visited (ClientManager.table_of_fd found) visited

theorem turned_staying (free : ∀ new ∈ o.calls.accept, p.manager.clients[new]? = none)
    (staying : p.manager.Staying) (turned : Turned p fd o more p') : p'.manager.Staying := by
  cases turned with
  | nothing => exact staying
  | @accepted new _ accept =>
    intro id client there
    dsimp only at there
    rw [ClientManager.table_acceptClient (free new accept)] at there
    by_cases own : id = p.manager.ctr + 1
    · rw [own, Function.update_self] at there
      cases there
      decide
    · rw [Function.update_of_ne own] at there
      exact staying id client there
  | @kept c m found handled still =>
    intro id client there
    by_cases own : id = c.id
    · subst own
      obtain ⟨_, _, same⟩ := seen_table there o
      rwa [same] at still
    · dsimp only at there
      rw [table_handled found handled, Function.update_of_ne own] at there
      exact staying id client there
  | @removed c m found handled closed =>
    intro id client there
    have gone := ClientManager.table_without (m.without_removeClient (seen m c.id o).id)
    dsimp only at there
    rw [gone] at there
    by_cases last : id = (seen m c.id o).id
    · rw [last, Function.update_self] at there
      cases there
    · rw [Function.update_of_ne last] at there
      by_cases own : id = c.id
      · subst own
        -- The loop finds its client again, and so reads its own id.
        obtain ⟨_, _, same⟩ := seen_table there o
        rw [same] at last
        exact absurd rfl last
      · rw [table_handled found handled, Function.update_of_ne own] at there
        exact staying id client there

theorem run_staying (kept : s.Kept limit inherited) (started : s.start inherited = some p₀)
    (run : Run (Fair limit) p₀ labels p) : p.manager.Staying := by
  have both := run.invariant
    (P := fun labels p => Sound limit p₀.opened labels p ∧ p.manager.Staying) ?_ ?_
  · exact both.2
  · rintro labels more p p' fd o ⟨sound, staying⟩ fair step
    have turned := turn_turned step
    refine ⟨turned_sound sound fair turned, turned_staying ?_ staying turned⟩
    exact fun new accept => sound.free (fair new accept)
  · refine ⟨Startup.start_sound kept started, ?_⟩
    intro id client there
    rw [start_table started] at there
    cases there

/-- **Departures.** An event is a client's last exactly where `handleClient` does not spare
it, or a request of it is a farewell; in that case, epoll no longer watches its descriptor. -/
theorem departs_iff (kept : s.Kept limit inherited) (started : s.start inherited = some p₀)
    (run : Run (Fair limit) p₀ labels p) (found : p.manager.clients[fd]? = some c)
    (step : p.turn fd o = some (more, p')) :
    let e := o.event (p.start c.id)
    (p'.manager.table c.id = none ↔
      ¬ Spared c e ∨ Requesting c e ∧ Farewell e.env c.client e.read) ∧
    (Spared c e → p'.manager.table c.id = none →
      more = [.handled c.id o.now e, .removed c.id] ∧ fd ∉ p'.interest) := by
  intro e
  have before := run_staying kept started run c.id c.client (ClientManager.table_of_fd found)
  obtain rfl := p.manager.registered.keyed fd c found
  rw [turn_found found o] at step
  obtain ⟨m, handled, step⟩ := Option.map_eq_some_iff.mp step
  have table := table_handled found handled
  obtain ⟨spared, client, stands⟩ | ⟨lost, gone⟩ :=
    ClientManager.getClient_handleClient p.manager c e found m handled
  · have there := ClientManager.table_of_fd stands
    have own := congrFun table c.id
    rw [there, Function.update_self] at own
    have visited : c.client.visit e = some (some client) := Option.join_eq_some_iff.mp own.symm
    have left := Client.visit_fdState c.id c.fd visited
    rw [or_iff_right before] at left
    obtain ⟨_, other, same⟩ := seen_table there o
    obtain rfl := m.registered.unique _ _ _ _ other stands rfl
    rw [same, closeTurn] at step
    simp only [not_true_eq_false, false_or, spared]
    rw [← left]
    by_cases closed : client.session.fdState = .closed
    · rw [if_pos closed] at step
      cases step
      refine ⟨iff_of_true ?_ closed, fun _ _ => ⟨rfl, ?_⟩⟩
      · have removed := ClientManager.table_without (m.without_removeClient c.id)
        have entry := congrFun removed c.id
        rwa [Function.update_self] at entry
      · exact Finset.notMem_erase _ _
    · rw [if_neg closed] at step
      cases step
      have still : m.table c.id ≠ none := by simp [there]
      exact ⟨iff_of_false still closed, fun _ none => absurd none still⟩
  · have absent : m.table c.id = none := Option.map_eq_none_iff.mpr gone
    refine ⟨iff_of_true ?_ (.inl lost), fun spared => absurd spared lost⟩
    by_cases closed : (seen m c.id o).fdState = .closed
    · rw [closeTurn, if_pos closed] at step
      cases step
      rw [ClientManager.table_without (m.without_removeClient (seen m c.id o).id),
        Function.update_apply, absent, ite_self]
    · rw [closeTurn, if_neg closed] at step
      cases step
      exact absent

theorem departs_iff_site : ∃ p₀ p p' : Process, siteStartup.start {0, 1, 2} = some p₀ ∧
    Run (Fair 1024) p₀ [.accepted 1 0] p ∧
    p.turn 5 hangUp = some ([.handled 1 0 (hangUp.event 0), .removed 1], p') ∧
    p'.manager.table 1 = none := by
  have each : Each (Fair 1024) ((siteStartup.start {0, 1, 2}).get rfl) [(4, connection)] :=
    ⟨connection_fair (by decide), fun _ _ _ => trivial⟩
  have run := Run.loop .start each rfl
  refine ⟨_, _, _, rfl, run, rfl, ?_⟩
  have departs := departs_iff (o := hangUp) siteStartup_kept rfl run
    Std.TreeMap.getElem?_insert_self rfl
  exact departs.1.mpr (.inr ⟨.inr ⟨rfl, rfl⟩, .inl rfl⟩)

/-! ## The loop and the server's steps -/

/-- The calls of `SSL_accept` and of `doRequest` in one event of the loop. -/
def turnLog (p : Process) (fd : Nat) (o : Occasion) : List Activity :=
  match p.getType fd with
  | .client =>
    match p.manager.clients[fd]? with
    | some c => (p.manager.handleClientTraced c (o.event (p.start c.id))).1
    | none => []
  | .socket | .server | .none => []

/-- Those in the events of one `epoll_wait`. -/
def epollLog (p : Process) : List (Nat × Occasion) → List Activity
  | [] => []
  | (fd, o) :: rest =>
    p.turnLog fd o ++
      match p.turn fd o with
      | none => []
      | some (_, p) => p.epollLog rest

/-- A run with the calls that were made in it, in their order. -/
inductive Logged (allowed : Process → Nat → Occasion → Prop) (p : Process) :
    List Label → List Activity → Process → Prop
  | start : Logged allowed p [] [] p
  | loop {labels more : List Label} {log : List Activity} {p' p'' : Process}
      (before : Logged allowed p labels log p') {events : List (Nat × Occasion)}
      (each : Each allowed p' events) (done : p'.epollLoop events = some (more, p'')) :
      Logged allowed p (labels ++ more) (log ++ p'.epollLog events) p''

section
variable {allowed : Process → Nat → Occasion → Prop} {log : List Activity}

theorem Run.logged (run : Run allowed p₀ labels p) : ∃ log, Logged allowed p₀ labels log p := by
  induction run with
  | start => exact ⟨[], .start⟩
  | loop before each done ih =>
    obtain ⟨log, logged⟩ := ih
    exact ⟨_, logged.loop each done⟩

theorem Logged.run (logged : Logged allowed p₀ labels log p) : Run allowed p₀ labels p := by
  induction logged with
  | start => exact .start
  | loop before each done ih => exact ih.loop each done

/-- One event. -/
theorem turn_steps (before : Server.Run {} ⟨some p.manager, log⟩)
    (step : p.turn fd o = some (more, p')) :
    Server.Run {} ⟨some p'.manager, log ++ p.turnLog fd o⟩ := by
  cases found : p.manager.clients[fd]? with
  | some c =>
    have calls : p.turnLog fd o =
        (p.manager.handleClientTraced c (o.event (p.start c.id))).1 := by
      simp only [turnLog, getType, if_pos (Epoller.isClient_of_fd found), found]
    rw [turn_found found o] at step
    obtain ⟨m, handled, step⟩ := Option.map_eq_some_iff.mp step
    have next := before.tail (.handleClient rfl found (o.event (p.start c.id)))
    rw [ClientManager.handleClientTraced_snd, handled, ← calls] at next
    by_cases closed : (seen m c.id o).fdState = .closed
    · rw [closeTurn, if_pos closed] at step
      cases step
      exact next.tail (.removeClient rfl _)
    · rw [closeTurn, if_neg closed] at step
      cases step
      exact next
  | none =>
    have calls : p.turnLog fd o = [] := by
      unfold turnLog
      rw [found]
      split <;> rfl
    rw [calls, List.append_nil]
    have turned := turn_turned step
    cases turned with
    | nothing => exact before
    | accepted _ _ => exact before.tail (.acceptClient rfl _)
    | kept there _ _ | removed there _ _ => cases found.symm.trans there

/-- The events of one `epoll_wait`. -/
theorem epollLoop_steps {events : List (Nat × Occasion)}
    (before : Server.Run {} ⟨some p.manager, log⟩)
    (done : p.epollLoop events = some (more, p')) :
    Server.Run {} ⟨some p'.manager, log ++ p.epollLog events⟩ := by
  induction events generalizing p log more with
  | nil =>
    cases done
    rwa [epollLog, List.append_nil]
  | cons event events ih =>
    obtain ⟨fd, o⟩ := event
    cases step : p.turn fd o with
    | none =>
      rw [epollLoop, step] at done
      cases done
    | some turned =>
      rw [epollLoop, step] at done
      obtain ⟨⟨rest, last⟩, onwards, same⟩ := Option.map_eq_some_iff.mp done
      cases same
      rw [epollLog, step, ← List.append_assoc]
      exact ih (turn_steps before step) onwards

/-- **Steps.** A run of the loop is steps of the server, with the same calls. -/
theorem Logged.steps (started : s.start inherited = some p₀)
    (logged : Logged allowed p₀ labels log p) : Server.Run {} ⟨some p.manager, log⟩ := by
  induction logged with
  | start =>
    rw [(Startup.start_fields started).2.1]
    exact .refl
  | loop before each done ih => exact epollLoop_steps ih done

/-- **Refinement.** Every run of the loop has a log of its calls, and whichever it is, the server
comes by its own steps to the same clients with the same log. So the run makes a request of no
client before its handshake is accepted, and leaves every client in its handshake or idle. -/
theorem run_server (started : s.start inherited = some p₀) (run : Run allowed p₀ labels p) :
    (∃ log, Logged allowed p₀ labels log p) ∧
      (∀ log, Logged allowed p₀ labels log p →
        Server.Run {} ⟨some p.manager, log⟩ ∧ Server.Ordered log) ∧
      ∀ (fd : Nat) (c : ClientRecord), p.manager.clients[fd]? = some c →
        c.client.session.state = .handshake ∨ c.client.session.state = .idle := by
  obtain ⟨log, logged⟩ := run.logged
  have steady := Server.run_steady (logged.steps started) Server.steady_start
  refine ⟨⟨log, logged⟩, ?_, ?_⟩
  · intro log logged
    have steps := logged.steps started
    exact ⟨steps, (Server.run_steady steps Server.steady_start).ordered⟩
  · intro fd c found
    have standing := steady.standing p.manager rfl fd c found
    exact standing.steady

theorem run_server_site : ∃ p₀ p : Process, siteStartup.start {0, 1, 2} = some p₀ ∧
    Logged (Fair 1024) p₀ [.accepted 1 0, .handled 1 0 (greeted.event 0)]
      [.sslAccept 1 (.accepted (ascii "h2")), .doRequest 1] p ∧
    Server.Run {} ⟨some p.manager, [.sslAccept 1 (.accepted (ascii "h2")), .doRequest 1]⟩ ∧
    Server.Ordered [.sslAccept 1 (.accepted (ascii "h2")), .doRequest 1] := by
  have each : Each (Fair 1024) ((siteStartup.start {0, 1, 2}).get rfl)
      [(4, connection), (5, greeted)] :=
    ⟨connection_fair (by decide), fun _ _ _ => ⟨nofun, fun _ _ _ => trivial⟩⟩
  have logged : Logged (Fair 1024) _ [.accepted 1 0, .handled 1 0 (greeted.event 0)]
      [.sslAccept 1 (.accepted (ascii "h2")), .doRequest 1] _ := Logged.loop .start each rfl
  have started : siteStartup.start {0, 1, 2} =
      some ((siteStartup.start {0, 1, 2}).get rfl) := rfl
  exact ⟨_, _, rfl, logged, (run_server started logged.run).2.1 _ logged⟩

end

end Process

end Http2Server
