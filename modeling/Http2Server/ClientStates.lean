import Http2Server.ClientManager

/-!
# The states of a client

A client is in its handshake until an `SSL_accept` succeeds with `h2`, and idle from
then on whenever no call is at work on it. `handleClientTraced` is `handleClient`
with the calls it makes of `SSL_accept` and of `doRequest`.
-/

namespace Http2Server

open Lib FrameHandler

/-! ## What is overwritten within a call -/

/-- `sendData` with both its assignments, on a pool that may have been stopped. -/
def sendDataStates (env : Env) (stopped : Bool) (s : Session) (data : Bytes) (weight : Int) :
    Exit × Session :=
  let s := { s with state := .writing }
  if stopped then (.threw, s)
  else
    let result := env.sslWrite s.sent.length data
    (.returned (0 ≤ result), { s with state := .idle, sent := s.sent ++ [⟨data, weight, result⟩] })

/-- No `sendData` on a running pool leaves the client writing. -/
theorem sendDataStates_running (env : Env) (s : Session) (data : Bytes) (weight : Int) :
    sendDataStates env false s data weight =
      (.returned (sendData env s data weight).1, (sendData env s data weight).2) := rfl

theorem applySettings_idle (env : Env) {s : Session} (idle : s.state = .idle) :
    (applySettings env s).2.state = .idle := by
  obtain ⟨ok, s', sent, within⟩ := applySettings_returns env s
  rw [sent]
  exact within.idle idle

theorem region_idle (env : Env) (c : Client) (data : Bytes) :
    (region env c data).1.state = .idle := by
  unfold region
  dsimp only
  split
  · exact applySettings_idle env rfl
  · rfl

/-- However a request ends, the client is idle. -/
theorem doRequest_idle (env : Env) (c : Client) (read : ReadResult) :
    (doRequest env c read).2.session.state = .idle := by
  cases read with
  | failed errno =>
    simp only [doRequest]
    split <;> rfl
  | closed => rfl
  | bytes data =>
    obtain ⟨buffer, read⟩ := doRequest_bytes env c data
    rw [read]
    split
    · exact region_idle env c data
    · exact handleFrames_idle env _ (region_idle env c data)

/-! ## The calls of `handleClient` -/

inductive Activity where
  | sslAccept (id : Nat) (result : SslAccept)
  | doRequest (id : Nat)
  deriving DecidableEq, Repr

namespace ClientManager

def handleRequestTraced (m : ClientManager) (id : Nat) (client : Client) (e : ClientEvent) :
    List Activity × Option ClientManager :=
  if client.session.state ≠ .idle then ([], some (m.setClient id client))
  else
    ([.doRequest id],
      match doRequest e.env client e.read with
      | (.returned _, client) => some (m.setClient id client)
      | (.threw, client) => some ((m.setClient id client).removeClient id)
      | (.aborted, _) => none)

def handleClientTraced (m : ClientManager) (c : ClientRecord) (e : ClientEvent) :
    List Activity × Option ClientManager :=
  if e.timedOut then ([], some (m.removeClient c.id))
  else if c.client.session.state = .closed then ([], some (m.removeClient c.id))
  else if c.client.session.state = .handshake then
    match c.client.continueHandshake e.accept with
    | (val, client) =>
      if val = 1 then
        let (calls, r) := m.handleRequestTraced c.id (client.setState .idle) e
        (.sslAccept c.id e.accept :: calls, r)
      else if val < 0 then
        ([.sslAccept c.id e.accept], some ((m.setClient c.id client).removeClient c.id))
      else ([.sslAccept c.id e.accept], some (m.setClient c.id client))
  else m.handleRequestTraced c.id c.client e

variable (m : ClientManager) (c : ClientRecord) (e : ClientEvent)

theorem handleRequestTraced_snd (id : Nat) (client : Client) :
    (m.handleRequestTraced id client e).2 = m.handleRequest id client e := by
  unfold handleRequestTraced handleRequest
  split <;> rfl

theorem handleClientTraced_snd : (m.handleClientTraced c e).2 = m.handleClient c e := by
  unfold handleClientTraced handleClient
  dsimp only
  simp only [← handleRequestTraced_snd]
  split_ifs <;> rfl

/-- The manager without a client. -/
def Without (m : ClientManager) (id : Nat) (m' : ClientManager) : Prop :=
  m'.ctr = m.ctr ∧ ∀ fd : Nat, m'.clients[fd]? = (m.clients[fd]?).filter fun c => c.id ≠ id

theorem without_removeClient (id : Nat) : Without m id (m.removeClient id) :=
  ⟨rfl, Registry.getElem?_remove m.registered.unique⟩

theorem without_written (id : Nat) (client : Client) :
    Without m id ((m.setClient id client).removeClient id) := by
  refine ⟨rfl, fun fd => ?_⟩
  rw [removeClient, Registry.getElem?_remove (m.setClient id client).registered.unique,
    setClient, Registry.getElem?_assign]
  cases m.clients[fd]? with
  | none => rfl
  | some c =>
    by_cases own : c.id = id
    · simp [Option.filter, own]
    · simp [own]

/-- How a request ends: the process with it, without the client, or with the client
idle. -/
def Served (m : ClientManager) (id : Nat) (r : Option ClientManager) : Prop :=
  r = none ∨ (∃ m', r = some m' ∧ Without m id m') ∨
    ∃ client : Client, client.session.state = .idle ∧ r = some (m.setClient id client)

theorem served_handleRequest {client : Client} (idle : client.session.state = .idle)
    (id : Nat) : m.handleRequestTraced id client e =
      ([.doRequest id], (m.handleRequestTraced id client e).2) ∧
      Served m id (m.handleRequestTraced id client e).2 := by
  have rests := doRequest_idle e.env client e.read
  rw [handleRequestTraced, if_neg (not_not.mpr idle)]
  refine ⟨rfl, ?_⟩
  rcases done : doRequest e.env client e.read with ⟨_ | _ | _, client'⟩ <;> rw [done] at rests
  · exact .inr (.inr ⟨client', rests, rfl⟩)
  · exact .inr (.inl ⟨_, rfl, without_written m id client'⟩)
  · exact .inl rfl

/-- What a call of `handleClient` can come to, for a client in its handshake or idle. -/
inductive Outcome (m : ClientManager) (c : ClientRecord) :
    List Activity → Option ClientManager → Prop
  | late {m' : ClientManager} (gone : Without m c.id m') : Outcome m c [] (some m')
  | failed {accept : SslAccept} {m' : ClientManager} (lost : accept.Failed)
      (gone : Without m c.id m') : Outcome m c [.sslAccept c.id accept] (some m')
  | waiting {code : Nat} (shaking : c.client.session.state = .handshake) :
      Outcome m c [.sslAccept c.id (.error code)] (some (m.setClient c.id c.client))
  | first {r : Option ClientManager} (shaking : c.client.session.state = .handshake)
      (served : Served m c.id r) :
      Outcome m c [.sslAccept c.id (.accepted (ascii "h2")), .doRequest c.id] r
  | next {r : Option ClientManager} (idle : c.client.session.state = .idle)
      (served : Served m c.id r) : Outcome m c [.doRequest c.id] r

variable {m c} in
theorem ctr_outcome {calls : List Activity} {r : Option ClientManager} {m' : ClientManager}
    (outcome : Outcome m c calls r) (live : r = some m') : m'.ctr = m.ctr := by
  have served (h : Served m c.id r) : m'.ctr = m.ctr := by
    obtain ended | ⟨left, removed, gone⟩ | ⟨client, -, kept⟩ := h
    · cases ended.symm.trans live
    · cases removed.symm.trans live
      exact gone.1
    · cases kept.symm.trans live
      rfl
  cases outcome with
  | late gone | failed lost gone =>
    cases live
    exact gone.1
  | waiting shaking =>
    cases live
    rfl
  | first shaking h | next idle h => exact served h

theorem handleClientTraced_outcome
    (steady : c.client.session.state = .handshake ∨ c.client.session.state = .idle) :
    Outcome m c (m.handleClientTraced c e).1 (m.handleClientTraced c e).2 := by
  by_cases late : e.timedOut = true
  · rw [handleClientTraced, if_pos late]
    exact .late (without_removeClient m c.id)
  rcases steady with shaking | idle
  · have step {r : Int × Client} (h : c.client.continueHandshake e.accept = r) :
        m.handleClientTraced c e =
          if r.1 = 1 then
            (.sslAccept c.id e.accept ::
              (m.handleRequestTraced c.id (r.2.setState .idle) e).1,
              (m.handleRequestTraced c.id (r.2.setState .idle) e).2)
          else if r.1 < 0 then
            ([.sslAccept c.id e.accept], some ((m.setClient c.id r.2).removeClient c.id))
          else ([.sslAccept c.id e.accept], some (m.setClient c.id r.2)) := by
      simp only [handleClientTraced, late, shaking, h, Bool.false_eq_true, ↓reduceIte,
        reduceCtorEq]
    obtain ⟨accepted, done⟩ | ⟨⟨code, -, error⟩, again⟩ | ⟨lost, closed⟩ :=
      Client.continueHandshake_cases shaking e.accept
    · have rests : (c.client.setState .idle).session.state = .idle := rfl
      obtain ⟨calls, served⟩ := served_handleRequest m e rests c.id
      rw [step done, if_pos rfl, calls, accepted]
      exact .first shaking served
    · rw [step again, error]
      exact .waiting shaking
    · rw [step closed]
      exact .failed lost (without_written m c.id _)
  · obtain ⟨calls, served⟩ := served_handleRequest m e idle c.id
    have step : m.handleClientTraced c e = m.handleRequestTraced c.id c.client e := by
      simp only [handleClientTraced, late, idle, Bool.false_eq_true, ↓reduceIte, reduceCtorEq]
    rw [step, calls]
    exact .next idle served

end ClientManager

/-! ## Runs of the server -/

/-- The clients, until the process ends, and the calls made so far. -/
structure Server where
  manager : Option ClientManager := some .empty
  log : List Activity := []

namespace Server

inductive Step : Server → Server → Prop where
  | acceptClient {s : Server} {m : ClientManager} (live : s.manager = some m) (fd : Nat) :
      Step s { s with manager := some (m.acceptClient fd) }
  | handleClient {s : Server} {m : ClientManager} (live : s.manager = some m) {fd : Nat}
      {c : ClientRecord} (found : m.clients[fd]? = some c) (e : ClientEvent) :
      Step s { manager := (m.handleClientTraced c e).2,
               log := s.log ++ (m.handleClientTraced c e).1 }
  | removeClient {s : Server} {m : ClientManager} (live : s.manager = some m) (id : Nat) :
      Step s { s with manager := some (m.removeClient id) }

def Run : Server → Server → Prop := Relation.ReflTransGen Step

/-- The client has got past its handshake. -/
def Accepted (log : List Activity) (id : Nat) : Prop :=
  .sslAccept id (.accepted (ascii "h2")) ∈ log

/-- A request is made only of a client past its handshake. -/
def Ordered (log : List Activity) : Prop :=
  ∀ before id after, log = before ++ .doRequest id :: after → Accepted before id

/-- Where a client stands, told by the calls that were made. -/
structure Standing (log : List Activity) (c : ClientRecord) : Prop where
  shaking : ¬ Accepted log c.id → c.client.session.state = .handshake
  idle : Accepted log c.id → c.client.session.state = .idle

/-- No id above the last one given has had a call. -/
def Numbered (log : List Activity) (ctr : Nat) : Prop := ∀ id, Accepted log id → id ≤ ctr

structure Steady (s : Server) : Prop where
  ordered : Ordered s.log
  numbered : ∀ m, s.manager = some m → Numbered s.log m.ctr
  standing : ∀ m, s.manager = some m → ∀ (fd : Nat) (c : ClientRecord),
    m.clients[fd]? = some c → Standing s.log c

theorem Standing.steady {log : List Activity} {c : ClientRecord} (standing : Standing log c) :
    c.client.session.state = .handshake ∨ c.client.session.state = .idle := by
  by_cases accepted : Accepted log c.id
  · exact .inr (standing.idle accepted)
  · exact .inl (standing.shaking accepted)

/-! What a call adds to the log. -/

section
variable {log calls : List Activity} {id : Nat}

theorem accepted_append : Accepted (log ++ calls) id ↔ Accepted log id ∨ Accepted calls id :=
  List.mem_append

/-- A call that is last in the log, or one before it. -/
theorem ordered_snoc (ordered : Ordered log) {a : Activity}
    (last : ∀ id, a = .doRequest id → Accepted log id) : Ordered (log ++ [a]) := by
  intro before id after split
  rcases List.eq_nil_or_concat after with rfl | ⟨rest, b, rfl⟩
  · obtain ⟨rfl, own⟩ := List.append_inj' split rfl
    exact last id (List.singleton_inj.mp own)
  · rw [List.concat_eq_append, ← List.cons_append, ← List.append_assoc] at split
    exact ordered before id rest (List.append_inj' split rfl).1

variable {m m' : ClientManager} {c : ClientRecord} {r : Option ClientManager}

/-- A call of `handleClient` is about its own client only. -/
theorem accepted_outcome (outcome : m.Outcome c calls r) (accepted : Accepted calls id) :
    id = c.id := by
  cases outcome with
  | late gone => cases accepted
  | failed lost gone =>
    simp only [Accepted, List.mem_singleton, Activity.sslAccept.injEq] at accepted
    exact accepted.1
  | waiting shaking => simp [Accepted] at accepted
  | first shaking served => simpa [Accepted] using accepted
  | next idle served => simp [Accepted] at accepted

theorem ordered_outcome (ordered : Ordered log) (standing : Standing log c)
    (outcome : m.Outcome c calls r) : Ordered (log ++ calls) := by
  cases outcome with
  | late gone =>
    rw [List.append_nil]
    exact ordered
  | failed lost gone => exact ordered_snoc ordered nofun
  | waiting shaking => exact ordered_snoc ordered nofun
  | first shaking served =>
    have entered := ordered_snoc ordered (a := .sslAccept c.id (.accepted (ascii "h2"))) nofun
    rw [List.append_cons]
    refine ordered_snoc entered fun id own => ?_
    cases own
    exact accepted_append.mpr (.inr (List.mem_singleton_self _))
  | next idle served =>
    refine ordered_snoc ordered fun id own => ?_
    cases own
    by_contra fresh
    cases idle.symm.trans (standing.shaking fresh)

/-- The clients that were not called. -/
theorem standing_other (outcome : m.Outcome c calls r) {d : ClientRecord} (other : d.id ≠ c.id)
    (standing : Standing log d) : Standing (log ++ calls) d := by
  have same : Accepted (log ++ calls) d.id ↔ Accepted log d.id := by
    rw [accepted_append]
    exact or_iff_left fun accepted => other (accepted_outcome outcome accepted)
  exact ⟨fun fresh => standing.shaking (same.not.mp fresh),
    fun accepted => standing.idle (same.mp accepted)⟩

theorem standing_gone (outcome : m.Outcome c calls r) (gone : m.Without c.id m')
    (standing : ∀ (fd : Nat) (d : ClientRecord), m.clients[fd]? = some d → Standing log d) :
    ∀ (fd : Nat) (d : ClientRecord), m'.clients[fd]? = some d → Standing (log ++ calls) d := by
  intro fd d found
  rw [gone.2 fd] at found
  obtain ⟨before, other⟩ := Option.filter_eq_some_iff.mp found
  exact standing_other outcome (of_decide_eq_true other) (standing fd d before)

theorem standing_set (outcome : m.Outcome c calls r) {client : Client}
    (own : ∀ d : ClientRecord, d.id = c.id → d.client = client → Standing (log ++ calls) d)
    (standing : ∀ (fd : Nat) (d : ClientRecord), m.clients[fd]? = some d → Standing log d) :
    ∀ (fd : Nat) (d : ClientRecord), (m.setClient c.id client).clients[fd]? = some d →
      Standing (log ++ calls) d := by
  intro fd d found
  rw [ClientManager.setClient, Registry.getElem?_assign] at found
  obtain ⟨old, before, rfl⟩ := Option.map_eq_some_iff.mp found
  split
  · next same => exact own _ same rfl
  · next other => exact standing_other outcome other (standing fd old before)

theorem standing_served (outcome : m.Outcome c calls r) (served : m.Served c.id r)
    (accepted : Accepted (log ++ calls) c.id)
    (standing : ∀ (fd : Nat) (d : ClientRecord), m.clients[fd]? = some d → Standing log d)
    (live : r = some m') :
    ∀ (fd : Nat) (d : ClientRecord), m'.clients[fd]? = some d → Standing (log ++ calls) d := by
  obtain ended | ⟨left, removed, gone⟩ | ⟨client, idle, kept⟩ := served
  · cases ended.symm.trans live
  · cases removed.symm.trans live
    exact standing_gone outcome gone standing
  · cases kept.symm.trans live
    refine standing_set outcome (fun d same written => ⟨fun fresh => ?_, fun _ => ?_⟩) standing
    · exact absurd (same ▸ accepted) fresh
    · rw [written]
      exact idle

theorem standing_outcome (outcome : m.Outcome c calls r) (own : Standing log c)
    (standing : ∀ (fd : Nat) (d : ClientRecord), m.clients[fd]? = some d → Standing log d)
    (live : r = some m') :
    ∀ (fd : Nat) (d : ClientRecord), m'.clients[fd]? = some d → Standing (log ++ calls) d := by
  have whole := outcome
  cases outcome with
  | late gone | failed lost gone =>
    cases live
    exact standing_gone whole gone standing
  | @waiting code shaking =>
    cases live
    refine standing_set whole (fun d same written => ?_) standing
    have fresh : ¬ Accepted (log ++ [.sslAccept c.id (.error code)]) c.id := by
      rw [accepted_append]
      rintro (before | now)
      · cases shaking.symm.trans (own.idle before)
      · simp [Accepted] at now
    refine ⟨fun _ => written ▸ shaking, fun accepted => ?_⟩
    rw [same] at accepted
    exact absurd accepted fresh
  | first shaking served =>
    refine standing_served whole served ?_ standing live
    exact accepted_append.mpr (.inr List.mem_cons_self)
  | next idle served =>
    refine standing_served whole served ?_ standing live
    by_contra fresh
    rw [accepted_append, not_or] at fresh
    cases idle.symm.trans (own.shaking fresh.1)

end

theorem step_steady {s s' : Server} (step : Step s s') (steady : s.Steady) : s'.Steady := by
  obtain ⟨ordered, numbered, standing⟩ := steady
  cases step with
  | @acceptClient m live fd =>
    refine ⟨ordered, ?_, ?_⟩
    · intro m' same id accepted
      cases same
      exact Nat.le_succ_of_le (numbered m live id accepted)
    · intro m' same k c found
      cases same
      rw [ClientManager.acceptClient, Std.TreeMap.getElem?_insert] at found
      split at found
      · cases found
        have fresh : ¬ Accepted s.log (m.ctr + 1) := fun accepted =>
          absurd (numbered m live _ accepted) (Nat.not_succ_le_self m.ctr)
        exact ⟨fun _ => rfl, fun accepted => absurd accepted fresh⟩
      · exact standing m live k c found
  | @handleClient m live fd c found e =>
    have own := standing m live fd c found
    have outcome := ClientManager.handleClientTraced_outcome m c e own.steady
    refine ⟨ordered_outcome ordered own outcome, ?_, ?_⟩
    · intro m' same id accepted
      rw [ClientManager.ctr_outcome outcome same]
      rcases accepted_append.mp accepted with before | now
      · exact numbered m live id before
      · rw [accepted_outcome outcome now]
        exact m.registered.numbered fd c found
    · exact fun m' same => standing_outcome outcome own (standing m live) same
  | @removeClient m live id =>
    refine ⟨ordered, ?_, ?_⟩
    · intro m' same i accepted
      cases same
      exact numbered m live i accepted
    · intro m' same fd c found
      cases same
      rw [(ClientManager.without_removeClient m id).2 fd] at found
      exact standing m live fd c (Option.filter_eq_some_iff.mp found).1

theorem run_steady {s s' : Server} (run : Run s s') (steady : s.Steady) : s'.Steady := by
  induction run with
  | refl => exact steady
  | tail run step ih => exact step_steady step ih

theorem steady_start : Steady {} := by
  refine ⟨?_, ?_, ?_⟩
  · intro before id after split
    simp at split
  · intro m live id accepted
    cases accepted
  · intro m live fd c found
    cases live
    simp [ClientManager.empty] at found

theorem run_log {s s' : Server} (run : Run s s') : s.log <+: s'.log := by
  induction run with
  | refl => exact List.prefix_rfl
  | tail run step ih =>
    cases step with
    | acceptClient | removeClient => exact ih
    | handleClient live found e => exact ih.trans (List.prefix_append _ _)

/-- **States.** A request is made only after an accepted handshake; between calls
every client is in its handshake or idle; and it never goes back to its handshake. -/
theorem client_states {s : Server} (run : Run {} s) :
    Ordered s.log ∧
    (∀ m, s.manager = some m → ∀ (fd : Nat) (c : ClientRecord), m.clients[fd]? = some c →
      c.client.session.state = .handshake ∨ c.client.session.state = .idle) ∧
    ∀ s', Run s s' → ∀ m m', s.manager = some m → s'.manager = some m' →
      ∀ (fd fd' : Nat) (c c' : ClientRecord), m.clients[fd]? = some c →
        m'.clients[fd']? = some c' → c'.id = c.id →
        c.client.session.state ≠ .handshake → c'.client.session.state ≠ .handshake := by
  have steady := run_steady run steady_start
  refine ⟨steady.ordered, ?_, ?_⟩
  · intro m live fd c found
    exact (steady.standing m live fd c found).steady
  · intro s' later m m' live live' fd fd' c c' found found' same left again
    have accepted : Accepted s.log c.id := by
      by_contra fresh
      exact left ((steady.standing m live fd c found).shaking fresh)
    have still : Accepted s'.log c'.id := by
      rw [same]
      exact (run_log later).subset accepted
    have idle := ((run_steady later steady).standing m' live' fd' c' found').idle still
    cases idle.symm.trans again

theorem client_states_h2 : ∃ s : Server, Run {} s ∧
    s.log = [.sslAccept 1 (.accepted (ascii "h2")), .doRequest 1] ∧ Ordered s.log := by
  let e : ClientEvent :=
    { env := siteEnv, timedOut := false, accept := .accepted (ascii "h2"),
      read := .failed eagain, fits := trivial }
  have accepted : Run {} _ := Relation.ReflTransGen.single (.acceptClient rfl 5)
  have served := accepted.tail (.handleClient rfl Std.TreeMap.getElem?_insert_self e)
  exact ⟨_, served, rfl, (client_states served).1⟩

end Server

end Http2Server
