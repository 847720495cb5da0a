import Http2Server.Descriptors

/-!
# Clients apart

The clients of a run as components of one table, and what that says of each of them.

- `run_table`: a run of the loop, as the actions on a table of clients.
- `isolated`: a client is what its own events made of it, whatever the others do.
- `client_reached`: so it is a client of the connection model.
- `lifetime`: when the events of a client can come.
-/

namespace Http2Server

open Lib FrameHandler

namespace Label

def id : Label → Nat
  | accepted id _ => id
  | handled id _ _ => id
  | removed id => id

def action : Label → Multiplex.Action Nat Client ClientEvent
  | accepted id _ => .enter id {}
  | handled id _ e => .event id e
  | removed id => .leave id

theorem key_action (x : Label) : x.action.key = x.id := by
  cases x <;> rfl

end Label

/-- What an event makes of a client, if the process goes on. -/
def Client.after (e : ClientEvent) (c : Client) : Option Client := (c.visit e).join

/-- The labels of one client. -/
def own (id : Nat) (labels : List Label) : List Label := labels.filter (·.id = id)

/-- What some labels make of a client by itself. -/
def alone (labels : List Label) : Option Client :=
  (labels.map Label.action).foldl (Multiplex.stepOne Client.after) none

theorem own_append (id : Nat) (labels more : List Label) :
    own id (labels ++ more) = own id labels ++ own id more := List.filter_append ..

theorem alone_append (labels more : List Label) :
    alone (labels ++ more) =
      (more.map Label.action).foldl (Multiplex.stepOne Client.after) (alone labels) := by
  rw [alone, List.map_append, List.foldl_append]
  rfl

theorem map_own (id : Nat) (labels : List Label) :
    Multiplex.own id (labels.map Label.action) = (own id labels).map Label.action := by
  rw [Multiplex.own, own, List.filter_map]
  congr 1
  apply List.filter_congr
  intro x _
  simp only [Function.comp_apply, Label.key_action]

theorem run_own (labels : List Label) (id : Nat) :
    Multiplex.run Client.after (fun _ => none) (labels.map Label.action) id =
      alone (own id labels) := by
  rw [Multiplex.run_own, map_own]
  rfl

namespace Process

variable {s : Startup} {inherited : Finset Nat} {limit : Nat} {p₀ p p' : Process}
  {labels more : List Label}

/-- An event of the loop, as actions on the table. -/
theorem turned_table {fd : Nat} {o : Occasion}
    (free : ∀ new ∈ o.calls.accept, p.manager.clients[new]? = none)
    (turned : Turned p fd o more p') :
    p'.manager.table =
      Multiplex.run Client.after p.manager.table (more.map Label.action) := by
  have visit {c : ClientRecord} {m : ClientManager} (found : p.manager.clients[fd]? = some c)
      (handled : p.manager.handleClient c (o.event (p.start c.id)) = some m) :
      m.table = Function.update p.manager.table c.id
        ((p.manager.table c.id).bind (Client.after (o.event (p.start c.id)))) := by
    have visited := p.manager.handleClient_visit (o.event (p.start c.id)) c
    rw [handled] at visited
    have there := ClientManager.table_of_fd found
    rw [ClientManager.table_visited there visited, there]
    rfl
  cases turned with
  | nothing => rfl
  | accepted _ accept => exact ClientManager.table_acceptClient (free _ accept)
  | kept found handled _ => exact visit found handled
  | removed found handled _ =>
    rw [ClientManager.table_without (ClientManager.without_removeClient _ _),
      visit found handled]
    rfl

theorem start_table (started : s.start inherited = some p₀) :
    p₀.manager.table = fun _ => none := by
  rw [(Startup.start_fields started).2.1]
  exact ClientManager.table_empty

/-- **Tables.** A run of the loop, as the actions on a table of clients. -/
theorem run_table (kept : s.Kept limit inherited) (started : s.start inherited = some p₀)
    (run : Run (Fair limit) p₀ labels p) :
    p.manager.table = Multiplex.run Client.after (fun _ => none) (labels.map Label.action) := by
  have both := run.invariant
    (P := fun labels p => Sound limit p₀.opened labels p ∧ p.manager.table =
      Multiplex.run Client.after (fun _ => none) (labels.map Label.action)) ?_ ?_
  · exact both.2
  · rintro labels more p p' fd o ⟨sound, same⟩ fair step
    have turned := turn_turned step
    refine ⟨turned_sound sound fair turned, ?_⟩
    rw [turned_table ?_ turned, same, List.map_append, Multiplex.run_append]
    intro new accept
    exact sound.free (fair new accept)
  · exact ⟨Startup.start_sound kept started, start_table started⟩

/-- **Isolation.** Whatever the others do, and in whatever order, a client is what its own
labels make of it. -/
theorem isolated (kept : s.Kept limit inherited) (started : s.start inherited = some p₀)
    (run : Run (Fair limit) p₀ labels p) (id : Nat) :
    p.manager.table id = alone (own id labels) := by
  rw [run_table kept started run, run_own]

/-- Another connection to be accepted. -/
def secondConnection : Occasion := { connection with calls := ⟨some 6, true, true⟩ }

/-- A handshake that succeeds, with nothing to read behind it. -/
def greeted : Occasion := { hangUp with read := .failed eagain, fits := trivial }

/-- Two clients, one of which leaves. -/
theorem isolated_site : ∃ (p₀ p : Process) (labels : List Label),
    siteStartup.start {0, 1, 2} = some p₀ ∧ Run (Fair 1024) p₀ labels p ∧
    labels = [.accepted 1 0, .accepted 2 0, .handled 1 0 (greeted.event 0),
      .handled 2 0 (hangUp.event 0), .removed 2] ∧
    p.manager.table 1 = alone [.accepted 1 0, .handled 1 0 (greeted.event 0)] ∧
    p.manager.table 2 = alone [.accepted 2 0, .handled 2 0 (hangUp.event 0), .removed 2] := by
  have each : Each (Fair 1024) ((siteStartup.start {0, 1, 2}).get rfl)
      [(4, connection), (4, secondConnection), (5, greeted), (6, hangUp)] := by
    refine ⟨connection_fair (by decide), fun labels p step => ⟨?_, fun _ _ _ =>
      ⟨nofun, fun _ _ _ => ⟨nofun, fun _ _ _ => trivial⟩⟩⟩⟩
    intro new accepted
    cases step
    obtain rfl := Option.mem_some_iff.mp accepted
    exact ⟨by decide, by decide⟩
  have run : Run (Fair 1024) _ _ _ := Run.loop .start each rfl
  exact ⟨_, _, _, rfl, run, rfl, isolated siteStartup_kept rfl run 1,
    isolated siteStartup_kept rfl run 2⟩

end Process

/-! ## Clients of the connection model -/

namespace Client

variable {c c' : Client} {e : ClientEvent}

theorem request_reached (reached : Reached c) (done : c.request e = some (some c')) :
    Reached c' := by
  unfold request at done
  split at done
  · cases done
    exact reached
  · split at done
    · next ok left read =>
      cases done
      exact .read reached e.fits read
    · cases done
    · cases done

theorem after_reached (reached : Reached c) (done : Client.after e c = some c') :
    Reached c' := by
  have visited : c.visit e = some (some c') := by
    rw [after] at done
    exact Option.join_eq_some_iff.mp done
  unfold visit at visited
  split_ifs at visited with late closed shaking
  · cases visited
  · cases visited
  · obtain ⟨_, accepted⟩ | ⟨_, again⟩ | ⟨_, lost⟩ := continueHandshake_cases shaking e.accept
    · rw [accepted] at visited
      simp only [↓reduceIte, request, setState, ne_eq, not_true_eq_false] at visited
      split at visited
      · next ok left read =>
        cases visited
        -- A read begins with the client idle, whatever it was.
        have same : doRequest e.env c e.read = (.returned ok, c') := read
        exact .read reached e.fits same
      · cases visited
      · cases visited
    · rw [again] at visited
      cases visited
      exact reached
    · rw [lost] at visited
      cases visited
  · exact request_reached reached visited

end Client

theorem alone_reached {labels : List Label} {client : Client} (h : alone labels = some client) :
    Reached client := by
  refine Multiplex.stepOne_invariant _ (P := Reached) ?_ ?_ h
  · intro id first entered
    obtain ⟨x, _, action⟩ := List.mem_map.mp entered
    cases x with
    | accepted id now =>
      cases action
      exact .new
    | handled | removed => cases action
  · intro e c c' reached became
    exact Client.after_reached reached became

namespace Process

variable {s : Startup} {inherited : Finset Nat} {limit : Nat} {p₀ p p' : Process}
  {labels more : List Label}

/-- **Connections.** Every client of a server, whatever it is doing for the others, is one
that reads of its own have led to. -/
theorem client_reached (kept : s.Kept limit inherited) (started : s.start inherited = some p₀)
    (run : Run (Fair limit) p₀ labels p) {fd : Nat} {c : ClientRecord}
    (found : p.manager.clients[fd]? = some c) : Reached c.client := by
  have there := ClientManager.table_of_fd found
  rw [run_table kept started run, run_own] at there
  exact alone_reached there

/-- What the loop reads of a client that is there. -/
theorem seen_table {m : ClientManager} {id : Nat} {client : Client}
    (there : m.table id = some client) (o : Occasion) :
    ∃ fd : Nat, m.clients[fd]? = some ⟨id, fd, client⟩ ∧
      seen m id o = ⟨client.session.fdState, fd, id⟩ := by
  obtain ⟨fd, stands⟩ := ClientManager.table_eq_some_iff.mp there
  refine ⟨fd, stands, ?_⟩
  have again : m.getClient id = some ⟨id, fd, client⟩ := ClientManager.getClient_of_fd stands
  rw [seen, again]

/-- An event that keeps its client, and leaves its descriptor's state as it is. -/
theorem turn_kept {fd : Nat} {o : Occasion} {c : ClientRecord} {client : Client}
    (found : p.manager.clients[fd]? = some c)
    (visited : c.client.visit (o.event (p.start c.id)) = some (some client))
    (still : client.session.fdState ≠ .closed) :
    p.turn fd o = some ([.handled c.id o.now (o.event (p.start c.id))],
      { p with manager := p.manager.setClient c.id client }) := by
  have visit := p.manager.handleClient_visit (o.event (p.start c.id)) c
  generalize handled : p.manager.handleClient c (o.event (p.start c.id)) = r at visit
  rw [visited] at visit
  cases visit with
  | kept client =>
    obtain ⟨_, _, same⟩ := seen_table
      (ClientManager.table_of_fd (ClientManager.setClient_fd found client)) o
    simp only at same
    simp only [turn_found found, clientTurn, handled, Option.map_some, same, closeTurn, still,
      ↓reduceIte]

/-- A first client, and an event that keeps it. -/
theorem kept_run {o : Occasion} {client : Client} (nobody : o.calls.accept = none)
    (visited : Client.visit {} (o.event 0) = some (some client))
    (still : client.session.fdState ≠ .closed) :
    ∃ p₀ p : Process, siteStartup.start {0, 1, 2} = some p₀ ∧
      Run (Fair 1024) p₀ [.accepted 1 0, .handled 1 o.now (o.event 0)] p ∧
      p.manager.clients[5]? = some ⟨1, 5, client⟩ := by
  have each : Each (Fair 1024) ((siteStartup.start {0, 1, 2}).get rfl) [(4, connection)] :=
    ⟨connection_fair (by decide), fun _ _ _ => trivial⟩
  obtain ⟨p, accepted, found, start⟩ : ∃ p : Process,
      Run (Fair 1024) ((siteStartup.start {0, 1, 2}).get rfl) [.accepted 1 0] p ∧
      p.manager.clients[5]? = some ⟨1, 5, {}⟩ ∧ p.start 1 = 0 :=
    ⟨_, Run.loop .start each rfl, Std.TreeMap.getElem?_insert_self, rfl⟩
  have turned := turn_kept (o := o) found (by rw [start]; exact visited) still
  rw [start] at turned
  have next : Each (Fair 1024) p [(5, o)] := ⟨by simp [Fair, nobody], fun _ _ _ => trivial⟩
  have run : Run (Fair 1024) _ [.accepted 1 0, .handled 1 o.now (o.event 0)] _ :=
    accepted.loop next (by rw [epollLoop, turned]; rfl)
  exact ⟨_, _, rfl, run, ClientManager.setClient_fd found client⟩

/-- A handshake that succeeds, and the preface behind it. -/
def reading : Occasion :=
  { hangUp with read := .bytes prefaceStr, fits := show _ ≤ _ by decide }

/-- A client that has read the preface, and been sent the settings. -/
theorem client_reached_site : ∃ p₀ p : Process, siteStartup.start {0, 1, 2} = some p₀ ∧
    Run (Fair 1024) p₀ [.accepted 1 0, .handled 1 0 (reading.event 0)] p ∧
    ∃ c, p.manager.clients[5]? = some c ∧ c.client.session.sent ≠ [] ∧ Reached c.client := by
  obtain ⟨client, visited, holds⟩ := (Option.any_eq_true
    (fun client : Client => client.session.sent ≠ [] ∧ client.session.fdState ≠ .closed)
    (Client.visit {} (reading.event 0)).join).mp (by decide +kernel)
  obtain ⟨sent, still⟩ := of_decide_eq_true holds
  obtain ⟨p₀, p, started, run, found⟩ := kept_run rfl (Option.join_eq_some_iff.mp visited) still
  exact ⟨p₀, p, started, run, _, found, sent,
    client_reached siteStartup_kept started run found⟩

end Process

/-! ## The events of a client -/

/-- An entry of a log that has grown by one. -/
theorem split_concat {α : Type} {xs before after : List α} {x y : α}
    (split : xs ++ [y] = before ++ x :: after) :
    after = [] ∧ before = xs ∧ x = y ∨
      ∃ rest, after = rest ++ [y] ∧ xs = before ++ x :: rest := by
  rcases List.eq_nil_or_concat after with rfl | ⟨rest, z, rfl⟩
  · obtain ⟨rfl, same⟩ := List.append_inj' split rfl
    exact .inl ⟨rfl, rfl, (List.singleton_inj.mp same).symm⟩
  · rw [List.concat_eq_append, ← List.cons_append, ← List.append_assoc] at split
    obtain ⟨rfl, same⟩ := List.append_inj' split rfl
    exact .inr ⟨rest, by rw [List.concat_eq_append, List.singleton_inj.mp same], rfl⟩

/-- The id that a label gives to a client. -/
def Label.entered : Label → Option Nat
  | accepted id _ => some id
  | _ => none

section
variable {labels more : List Label} {id : Nat}

/-- A client that is there was accepted. -/
theorem accepted_of_alone (h : alone (own id labels) ≠ none) :
    ∃ start, .accepted id start ∈ labels := by
  obtain ⟨client, there⟩ := Option.ne_none_iff_exists'.mp h
  obtain ⟨before, i, a, events, actions, _⟩ := Multiplex.life _ there
  have entered : .enter i a ∈ (own id labels).map Label.action := by
    rw [actions]
    simp
  obtain ⟨x, mine, action⟩ := List.mem_map.mp entered
  obtain ⟨among, same⟩ := List.mem_filter.mp mine
  cases x with
  | accepted k start =>
    obtain rfl : k = id := of_decide_eq_true same
    exact ⟨start, among⟩
  | handled | removed => cases action

/-- A client that is gone stays gone. -/
theorem alone_gone (gone : alone (own id labels) = none)
    (never : ∀ start, .accepted id start ∉ more) : alone (own id (labels ++ more)) = none := by
  rw [own_append, alone_append, gone]
  induction more with
  | nil => rfl
  | cons x more ih =>
    have rest := ih fun start among => never start (List.mem_cons_of_mem x among)
    by_cases mine : x.id = id
    · rw [own, List.filter_cons_of_pos (by simpa using mine), List.map_cons, List.foldl_cons]
      cases x with
      | accepted k start =>
        obtain rfl : k = id := mine
        exact absurd List.mem_cons_self (never start)
      | handled k now e => exact rest
      | removed k => exact rest
    · rw [own, List.filter_cons_of_neg (by simpa using mine)]
      exact rest

end

namespace Process

/-- What the labels say of the clients that came: their ids, when they came, and that each
was there when an event was handled for it. -/
structure Traced (labels : List Label) (p : Process) : Prop where
  entered : labels.filterMap Label.entered = List.range' 1 p.manager.ctr
  starts : ∀ id now, .accepted id now ∈ labels → p.start id = now
  there : ∀ before id now e after, labels = before ++ .handled id now e :: after →
    alone (own id before) ≠ none ∧ (e.timedOut = true ↔ p.start id + timeout < now)

variable {s : Startup} {inherited : Finset Nat} {limit : Nat} {p₀ p p' : Process}
  {labels more : List Label}

theorem Traced.numbered (traced : Traced labels p) {id now : Nat}
    (among : .accepted id now ∈ labels) : id ≤ p.manager.ctr := by
  have entered : id ∈ labels.filterMap Label.entered :=
    List.mem_filterMap.mpr ⟨_, among, rfl⟩
  rw [traced.entered, List.mem_range'_1] at entered
  omega

/-- One more label, not of a new client. -/
theorem Traced.push (traced : Traced labels p) {x : Label} (known : x.entered = none)
    (there : ∀ id now e, x = .handled id now e →
      alone (own id labels) ≠ none ∧ (e.timedOut = true ↔ p.start id + timeout < now))
    (same : p'.start = p.start) (ctr : p'.manager.ctr = p.manager.ctr) :
    Traced (labels ++ [x]) p' := by
  refine ⟨?_, ?_, ?_⟩
  · rw [List.filterMap_append, traced.entered, ctr, List.filterMap_cons_none known,
      List.filterMap_nil, List.append_nil]
  · intro id now among
    rw [same]
    obtain before | last := List.mem_append.mp among
    · exact traced.starts id now before
    · rw [← List.mem_singleton.mp last] at known
      cases known
  · intro before id now e after split
    rw [same]
    obtain ⟨_, rfl, rfl⟩ | ⟨rest, _, earlier⟩ := split_concat split
    · exact there id now e rfl
    · exact traced.there before id now e rest earlier

/-- A run accepts an id once. -/
theorem Traced.once (traced : Traced labels p) {first rest : List Label} {id start : Nat}
    (split : labels = first ++ .accepted id start :: rest) (again : Nat) :
    .accepted id again ∉ first ++ rest := by
  intro twice
  have distinct := traced.entered ▸ List.nodup_range' (s := 1) (n := p.manager.ctr)
  have own : Label.entered (.accepted id start) = some id := rfl
  rw [split, List.filterMap_append, List.filterMap_cons_some own, List.nodup_middle,
    ← List.filterMap_append] at distinct
  exact (List.nodup_cons.mp distinct).1 (List.mem_filterMap.mpr ⟨_, twice, rfl⟩)

theorem turned_traced {fd : Nat} {o : Occasion} (traced : Traced labels p)
    (each : ∀ id, p.manager.table id = alone (own id labels)) (turned : Turned p fd o more p') :
    Traced (labels ++ more) p' := by
  have handled {c : ClientRecord} {m : ClientManager} (found : p.manager.clients[fd]? = some c)
      (handled : p.manager.handleClient c (o.event (p.start c.id)) = some m) :
      Traced (labels ++ [.handled c.id o.now (o.event (p.start c.id))])
        { p with manager := m } := by
    have visited := p.manager.handleClient_visit (o.event (p.start c.id)) c
    rw [handled] at visited
    refine traced.push rfl ?_ rfl (ClientManager.ctr_visited visited)
    intro id now e same
    cases same
    rw [← each, ClientManager.table_of_fd found]
    exact ⟨by simp, decide_eq_true_iff⟩
  cases turned with
  | nothing => rwa [List.append_nil]
  | @accepted new _ _ =>
    have other {id now : Nat} (among : .accepted id now ∈ labels) :
        Function.update p.start (p.manager.ctr + 1) o.now id = p.start id := by
      apply Function.update_of_ne
      have := traced.numbered among
      omega
    refine ⟨?_, ?_, ?_⟩
    · rw [List.filterMap_append, traced.entered]
      change _ ++ [p.manager.ctr + 1] = List.range' 1 (p.manager.ctr + 1)
      rw [List.range'_1_concat, Nat.add_comm 1]
    · intro id now among
      obtain before | last := List.mem_append.mp among
      · exact (other before).trans (traced.starts id now before)
      · cases List.mem_singleton.mp last
        exact Function.update_self ..
    · intro before id now e after split
      obtain ⟨_, _, same⟩ | ⟨rest, _, earlier⟩ := split_concat split
      · cases same
      · obtain ⟨still, late⟩ := traced.there before id now e rest earlier
        obtain ⟨start, among⟩ := accepted_of_alone still
        have within : .accepted id start ∈ labels := by
          rw [earlier]
          exact List.mem_append_left _ among
        refine ⟨still, late.trans ?_⟩
        rw [← other within]
  | kept found done _ => exact handled found done
  | removed found done _ =>
    rw [List.append_cons]
    exact (handled found done).push rfl nofun rfl rfl

theorem run_traced (kept : s.Kept limit inherited) (started : s.start inherited = some p₀)
    (run : Run (Fair limit) p₀ labels p) : Traced labels p := by
  have all := run.invariant
    (P := fun labels p => Sound limit p₀.opened labels p ∧
      p.manager.table = Multiplex.run Client.after (fun _ => none) (labels.map Label.action) ∧
      Traced labels p) ?_ ?_
  · exact all.2.2
  · rintro labels more p p' fd o ⟨sound, same, traced⟩ fair step
    have turned := turn_turned step
    have free : ∀ new ∈ o.calls.accept, p.manager.clients[new]? = none :=
      fun new accept => sound.free (fair new accept)
    refine ⟨turned_sound sound fair turned, ?_, turned_traced traced ?_ turned⟩
    · rw [turned_table free turned, same, List.map_append, Multiplex.run_append]
    · intro id
      rw [same, run_own]
  · refine ⟨Startup.start_sound kept started, start_table started, ?_, ?_, ?_⟩
    · rw [(Startup.start_fields started).2.1]
      rfl
    · exact fun _ _ among => absurd among List.not_mem_nil
    · exact fun before id now e after split => absurd split (by simp)

/-- **Lifetimes.** A client is accepted once, and an event is handled for it only while it
is there. The time is looked at in these events only; the first one too late is the last, and
behind the last one so far it is as that one left it, however late it gets. -/
theorem lifetime (kept : s.Kept limit inherited) (started : s.start inherited = some p₀)
    (run : Run (Fair limit) p₀ labels p) {before after : List Label} {id now : Nat}
    {e : ClientEvent} (split : labels = before ++ .handled id now e :: after) :
    alone (own id before) ≠ none ∧
      (∃ first start rest, before = first ++ .accepted id start :: rest ∧
        (∀ again, .accepted id again ∉ first ++ rest ++ .handled id now e :: after) ∧
        (e.timedOut = true ↔ start + timeout < now)) ∧
      (alone (own id (before ++ [.handled id now e])) = none →
        ∀ later e', .handled id later e' ∉ after) ∧
      (e.timedOut = true → alone (own id (before ++ [.handled id now e])) = none) ∧
      ((∀ x ∈ after, x.id ≠ id) →
        p.manager.table id = alone (own id (before ++ [.handled id now e]))) := by
  have traced := run_traced kept started run
  obtain ⟨there, late⟩ := traced.there before id now e after split
  obtain ⟨start, among⟩ := accepted_of_alone there
  obtain ⟨first, rest, accepted⟩ := List.append_of_mem among
  have whole : labels = first ++ .accepted id start :: (rest ++ .handled id now e :: after) := by
    rw [split, accepted, List.append_assoc, List.cons_append]
  have once : ∀ again, .accepted id again ∉ first ++ rest ++ .handled id now e :: after := by
    intro again
    rw [List.append_assoc]
    exact traced.once whole again
  refine ⟨there, ⟨first, start, rest, accepted, once, ?_⟩, ?_, ?_, ?_⟩
  · rw [late, traced.starts id start]
    rw [split]
    exact List.mem_append_left _ among
  · intro gone later e' again
    obtain ⟨mid, last, rfl⟩ := List.append_of_mem again
    have split' : labels =
        (before ++ [.handled id now e] ++ mid) ++ .handled id later e' :: last := by
      simp [split]
    refine (traced.there _ id later e' last split').1 (alone_gone gone ?_)
    intro again among
    exact once again
      (List.mem_append_right _ (List.mem_cons_of_mem _ (List.mem_append_left _ among)))
  · intro timedOut
    obtain ⟨client, before'⟩ := Option.ne_none_iff_exists'.mp there
    rw [own_append, alone_append, before', own, List.filter_cons_of_pos (by simp [Label.id])]
    simp [Label.action, Multiplex.stepOne, Client.after, Client.visit, timedOut]
  · intro others
    have none : own id after = [] := by
      rw [own, List.filter_eq_nil_iff]
      simpa using others
    rw [run_table kept started run, run_own, split, List.append_cons, own_append, none,
      List.append_nil]

/-- Nothing outside the process, eleven minutes later. -/
def quiet : Occasion := { connection with now := 660, calls := ⟨none, true, true⟩ }

theorem lifetime_site : ∃ p₀ p : Process, siteStartup.start {0, 1, 2} = some p₀ ∧
    Run (Fair 1024) p₀ [.accepted 1 0, .handled 1 660 (quiet.event 0), .removed 0] p ∧
    alone (own 1 [.accepted 1 0, .handled 1 660 (quiet.event 0)]) = none := by
  have each : Each (Fair 1024) ((siteStartup.start {0, 1, 2}).get rfl)
      [(4, connection), (5, { quiet with stale := ⟨.closed, 0, 0⟩ })] :=
    ⟨connection_fair (by decide), fun _ _ _ => ⟨nofun, fun _ _ _ => trivial⟩⟩
  have run : Run (Fair 1024) _ [.accepted 1 0, .handled 1 660 (quiet.event 0), .removed 0] _ :=
    Run.loop .start each rfl
  have split : [Label.accepted 1 0, .handled 1 660 (quiet.event 0), .removed 0] =
      [.accepted 1 0] ++ .handled 1 660 (quiet.event 0) :: [.removed 0] := rfl
  exact ⟨_, _, rfl, run, (lifetime siteStartup_kept rfl run split).2.2.2.1 rfl⟩

end Process

end Http2Server
