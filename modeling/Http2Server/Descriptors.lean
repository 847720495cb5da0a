import Http2Server.EpollLoop

/-!
# Descriptors

The server closes no descriptor of a client, whichever way the client goes.

- `descriptors_counted`: every client that was ever accepted still has its descriptor open,
  so that a process accepts only so many.
- `getType_sound`: the loop takes each descriptor for what it is, and a new client never
  takes the place of another.
- `deaf`: a server whose socket could not be set up goes on, and waits for nothing.
-/

namespace Http2Server

def Label.isAccepted : Label → Bool
  | accepted _ _ => true
  | _ => false

namespace Process

/-- The labels with the number of clients accepted, and where the descriptors stand;
`initial` are those open before the loop. -/
structure Sound (limit : Nat) (initial : Finset Nat) (labels : List Label) (p : Process) :
    Prop where
  below : ∀ fd ∈ p.opened, fd < limit
  grown : initial ⊆ p.opened
  counted : p.opened.card = initial.card + p.manager.ctr
  accepted : labels.countP Label.isAccepted = p.manager.ctr
  sockets : ∀ fd ∈ p.sockets, fd ∈ initial
  epoll : p.epollFD ∈ initial
  apart : p.epollFD ∉ p.sockets
  clients : ∀ (fd : Nat) (c : ClientRecord), p.manager.clients[fd]? = some c →
    fd ∈ p.opened ∧ fd ∉ initial

/-- A new descriptor is no client's. -/
theorem Sound.free {limit : Nat} {initial : Finset Nat} {labels : List Label} {p : Process}
    (sound : Sound limit initial labels p) {fd : Nat} (new : Promised limit p.opened fd) :
    p.manager.clients[fd]? = none := by
  cases found : p.manager.clients[fd]? with
  | none => rfl
  | some c => exact absurd (sound.clients fd c found).1 new.2

/-- After a visit, only those who were there before are. -/
theorem found_visited {m m' : ClientManager} {id : Nat} {r : Option (Option Client)}
    (h : m.Visited id r (some m')) {fd : Nat} {c : ClientRecord}
    (found : m'.clients[fd]? = some c) : ∃ old, m.clients[fd]? = some old := by
  cases h with
  | removed gone =>
    rw [gone.2] at found
    exact ⟨c, (Option.filter_eq_some_iff.mp found).1⟩
  | kept client =>
    rw [ClientManager.setClient, Lib.Registry.getElem?_assign] at found
    obtain ⟨old, stands, _⟩ := Option.map_eq_some_iff.mp found
    exact ⟨old, stands⟩

theorem found_removed {m : ClientManager} {id fd : Nat} {c : ClientRecord}
    (found : (m.removeClient id).clients[fd]? = some c) : m.clients[fd]? = some c := by
  rw [(m.without_removeClient id).2] at found
  exact (Option.filter_eq_some_iff.mp found).1

theorem turned_sound {limit : Nat} {initial : Finset Nat} {labels more : List Label}
    {p p' : Process} {fd : Nat} {o : Occasion} (sound : Sound limit initial labels p)
    (fair : Fair limit p fd o) (turned : Turned p fd o more p') :
    Sound limit initial (labels ++ more) p' := by
  cases turned with
  | nothing => rwa [List.append_nil]
  | @accepted new listening accept =>
    obtain ⟨inside, fresh⟩ := fair new accept
    refine { sound with
      below := ?_, grown := ?_, counted := ?_, accepted := ?_, clients := ?_ }
    · intro k hk
      obtain rfl | hk := Finset.mem_insert.mp hk
      · exact inside
      · exact sound.below k hk
    · exact sound.grown.trans (Finset.subset_insert _ _)
    · rw [Finset.card_insert_of_notMem fresh, sound.counted]
      rfl
    · rw [List.countP_append, sound.accepted]
      rfl
    · intro k c found
      rw [ClientManager.acceptClient, Std.TreeMap.getElem?_insert] at found
      split at found
      · next same =>
        obtain rfl := Std.LawfulEqCmp.eq_of_compare same
        exact ⟨Finset.mem_insert_self _ _, fun there => fresh (sound.grown there)⟩
      · obtain ⟨open', own⟩ := sound.clients k c found
        exact ⟨Finset.mem_insert_of_mem open', own⟩
  | @kept c m found handled still =>
    have visited := p.manager.handleClient_visit (o.event (p.start c.id)) c
    rw [handled] at visited
    refine { sound with counted := ?_, accepted := ?_, clients := ?_ }
    · rw [sound.counted, ClientManager.ctr_visited visited]
    · rw [List.countP_append, sound.accepted, ClientManager.ctr_visited visited]
      rfl
    · intro k d stands
      obtain ⟨old, before⟩ := found_visited visited stands
      exact sound.clients k old before
  | @removed c m found handled closed =>
    have visited := p.manager.handleClient_visit (o.event (p.start c.id)) c
    rw [handled] at visited
    have same : (m.removeClient (seen m c.id o).id).ctr = p.manager.ctr := by
      change m.ctr = p.manager.ctr
      exact ClientManager.ctr_visited visited
    refine { sound with counted := ?_, accepted := ?_, clients := ?_ }
    · rw [sound.counted, same]
    · rw [List.countP_append, sound.accepted, same]
      rfl
    · intro k d stands
      obtain ⟨old, before⟩ := found_visited visited (found_removed stands)
      exact sound.clients k old before

end Process

namespace Startup

variable {s : Startup} {inherited : Finset Nat} {limit : Nat} {p : Process}

/-- The descriptor of the socket is what the socket call gave. -/
theorem construct_cases (s : Startup) :
    s.construct.1 = none ∧ s.construct.2 = false ∨
      ∃ fd, s.socket = some fd ∧ s.construct.1 = some fd := by
  unfold construct
  split
  · exact .inl ⟨rfl, rfl⟩
  · split
    · exact .inl ⟨rfl, rfl⟩
    · next fd created => exact .inr ⟨fd, created, rfl⟩

/-- The sockets listed once the constructor is done. -/
def listed (s : Startup) : List Nat := if s.construct.2 then s.construct.1.toList else []

theorem socket_listed {fd : Nat} (h : fd ∈ s.listed) : s.socket = some fd := by
  unfold listed construct at h
  split_ifs at h <;> simp_all
  split at h <;> simp_all

/-- Every call of the constructor of `Socket` succeeds. -/
def Succeeds (s : Startup) : Prop :=
  s.context = true ∧ s.certificate = true ∧ s.privateKey = true ∧ s.socket.isSome = true ∧
    s.setsockopt = true ∧ s.bind = true ∧ s.listen = true ∧ s.getFlags = true

instance (s : Startup) : Decidable s.Succeeds := inferInstanceAs (Decidable (_ ∧ _))

theorem listed_failed (failed : ¬ s.Succeeds) : s.listed = [] := by
  unfold listed
  split
  · next done =>
    unfold construct at done
    split at done
    · cases done
    · next tls =>
      split at done
      · cases done
      · next fd created =>
        simp only [not_or, Bool.not_eq_false] at tls
        simp only [Bool.and_eq_true] at done
        obtain ⟨⟨⟨setsockopt, bind⟩, listen⟩, getFlags⟩ := done
        refine absurd ?_ failed
        exact ⟨tls.1, tls.2.1, tls.2.2, by rw [created]; rfl, setsockopt, bind, listen, getFlags⟩
  · rfl

theorem start_fields (started : s.start inherited = some p) :
    s.epollCreate = some p.epollFD ∧ p.manager = .empty ∧ p.sockets = s.listed ∧
      p.opened = s.listed.toFinset ∪ insert p.epollFD inherited := by
  obtain ⟨epollFD, created, rfl⟩ := Option.map_eq_some_iff.mp started
  dsimp only
  split
  · exact ⟨created, rfl, rfl, rfl⟩
  · rw [Process.addFD_snd]
    exact ⟨created, rfl, rfl, rfl⟩

theorem start_sound (kept : s.Kept limit inherited) (started : s.start inherited = some p) :
    Process.Sound limit p.opened [] p := by
  obtain ⟨created, manager, sockets, opened⟩ := start_fields started
  have socket : ∀ fd ∈ p.sockets, Promised limit (insert p.epollFD inherited) fd := by
    intro fd hfd
    rw [sockets] at hfd
    exact kept.socket fd (socket_listed hfd) p.epollFD created
  constructor
  · intro fd hfd
    rw [opened, Finset.mem_union, List.mem_toFinset, ← sockets, Finset.mem_insert] at hfd
    obtain hfd | rfl | hfd := hfd
    · exact (socket fd hfd).1
    · exact (kept.epoll _ created).1
    · exact kept.below fd hfd
  · exact Finset.Subset.refl _
  · rw [manager]
    rfl
  · rw [manager]
    rfl
  · intro fd hfd
    rw [opened, Finset.mem_union, List.mem_toFinset, ← sockets]
    exact .inl hfd
  · simp [opened]
  · intro listening
    exact (socket _ listening).2 (Finset.mem_insert_self _ _)
  · intro fd c found
    simp [manager, ClientManager.empty] at found

end Startup

/-- A startup without a failure, on the first descriptors there are. -/
def siteStartup : Startup where
  epollCreate := some 3
  context := true
  certificate := true
  privateKey := true
  socket := some 4
  setsockopt := true
  bind := true
  listen := true
  getFlags := true
  added := true

theorem siteStartup_kept : siteStartup.Kept 1024 {0, 1, 2} where
  below := by decide
  epoll fd h := by
    obtain rfl := Option.mem_some_iff.mp h
    exact ⟨by decide, by decide⟩
  socket fd h epollFD h' := by
    obtain rfl := Option.mem_some_iff.mp h
    obtain rfl := Option.mem_some_iff.mp h'
    exact ⟨by decide, by decide⟩

namespace Process

/-- `epoll_ctl` does not fail, and the loop finds its client again. -/
def Heeded (limit : Nat) (p : Process) (fd : Nat) (o : Occasion) : Prop :=
  Fair limit p fd o ∧ o.added = true ∧ ∀ c, p.manager.clients[fd]? = some c →
    Epoller.Present p.manager fd (o.event (p.start c.id))

/-- Nothing outside the process but a connection to be accepted. -/
def connection : Occasion where
  now := 0
  calls := ⟨some 5, true, true⟩
  added := true
  env := siteEnv
  accept := .error 2
  read := .failed eagain
  fits := trivial
  stale := ⟨.new, 0, 0⟩

theorem connection_fair {p : Process} {fd : Nat} (fresh : 5 ∉ p.opened) :
    Fair 1024 p fd connection := by
  intro new accepted
  obtain rfl := Option.mem_some_iff.mp accepted
  exact ⟨by decide, fresh⟩

/-- A client that closes the connection at once. -/
def hangUp : Occasion :=
  { connection with
    calls := ⟨none, true, true⟩
    accept := .accepted (ascii "h2")
    read := .closed
    fits := trivial }

/-- A client that comes and goes. -/
theorem hangUp_run : ∃ p₀ p : Process, siteStartup.start {0, 1, 2} = some p₀ ∧
    Run (Heeded 1024) p₀ [.accepted 1 0, .handled 1 0 (hangUp.event 0), .removed 1] p ∧
    p.manager.clients[5]? = none := by
  have heeded : Heeded 1024 ((siteStartup.start {0, 1, 2}).get rfl) 4 connection := by
    refine ⟨connection_fair (by decide), rfl, ?_⟩
    intro c found
    cases (show none = some c from found)
  have each : Each (Heeded 1024) ((siteStartup.start {0, 1, 2}).get rfl)
      [(4, connection), (5, hangUp)] := by
    refine ⟨heeded, fun labels p step => ⟨⟨nofun, rfl, fun c found => ?_⟩, fun _ _ _ => trivial⟩⟩
    cases step
    cases Std.TreeMap.getElem?_insert_self.symm.trans found
    have removed : Epoller.clientEvent (ClientManager.empty.acceptClient 5) 5 (hangUp.event 0) =
      .removed _ := rfl
    exact fun missing => Visit.noConfusion (removed.symm.trans missing)
  exact ⟨_, _, rfl, Run.loop .start each rfl, rfl⟩

section
variable {s : Startup} {inherited : Finset Nat} {limit : Nat} {p₀ p : Process}
  {labels : List Label}

theorem run_sound (kept : s.Kept limit inherited) (started : s.start inherited = some p₀)
    (run : Run (Fair limit) p₀ labels p) : Sound limit p₀.opened labels p := by
  refine run.invariant ?_ (Startup.start_sound kept started)
  intro _ _ _ _ _ _ sound fair step
  exact turned_sound sound fair (turn_turned step)

/-- **Descriptors.** Every client ever accepted still has a descriptor open, whether or not
it is there; so a process never accepts more of them than its limit left room for. -/
theorem descriptors_counted (kept : s.Kept limit inherited)
    (started : s.start inherited = some p₀) (run : Run (Fair limit) p₀ labels p) :
    p₀.opened ⊆ p.opened ∧
      p.opened.card = p₀.opened.card + labels.countP Label.isAccepted ∧
      p₀.opened.card + labels.countP Label.isAccepted ≤ limit := by
  have sound := run_sound kept started run
  have counted : p.opened.card = p₀.opened.card + labels.countP Label.isAccepted := by
    rw [sound.counted, sound.accepted]
  refine ⟨sound.grown, counted, ?_⟩
  rw [← counted]
  calc p.opened.card ≤ (Finset.range limit).card :=
        Finset.card_le_card fun fd hfd => Finset.mem_range.mpr (sound.below fd hfd)
    _ = limit := Finset.card_range limit

theorem descriptors_counted_site : ∃ p₀ p : Process, siteStartup.start {0, 1, 2} = some p₀ ∧
    Run (Fair 1024) p₀ [.accepted 1 0, .handled 1 0 (hangUp.event 0), .removed 1] p ∧
    p.manager.clients[5]? = none ∧ p.opened.card = p₀.opened.card + 1 := by
  obtain ⟨p₀, p, started, run, gone⟩ := hangUp_run
  have fair := run.mono And.left
  exact ⟨p₀, p, started, fair, gone, (descriptors_counted siteStartup_kept started fair).2.1⟩

/-- **Types.** The loop takes a descriptor for a client exactly where one has it, for a
socket where one listens on it, and for its own; a new descriptor is no client's. -/
theorem getType_sound (kept : s.Kept limit inherited)
    (started : s.start inherited = some p₀) (run : Run (Fair limit) p₀ labels p) :
    (∀ fd : Nat, (p.getType fd = .client ↔ ∃ c, p.manager.clients[fd]? = some c) ∧
      (p.getType fd = .socket ↔ fd ∈ p.sockets) ∧ (p.getType fd = .server ↔ fd = p.epollFD)) ∧
    ∀ fd, Promised limit p.opened fd → p.manager.clients[fd]? = none := by
  have sound := run_sound kept started run
  have client (fd : Nat) : Epoller.isClient p.manager fd = true ↔
      ∃ c, p.manager.clients[fd]? = some c := by
    constructor
    · intro found
      obtain ⟨⟨k, c⟩, listed, same⟩ := List.any_eq_true.mp found
      have stands := Std.TreeMap.mem_toList_iff_getElem?_eq_some.mp listed
      have own := p.manager.registered.keyed k c stands
      rw [decide_eq_true_iff, own] at same
      exact ⟨c, same ▸ stands⟩
    · rintro ⟨c, found⟩
      exact Epoller.isClient_of_fd found
  refine ⟨?_, ?_⟩
  · intro fd
    have socket : fd ∈ p.sockets → ¬ ∃ c, p.manager.clients[fd]? = some c := by
      rintro listening ⟨c, found⟩
      exact (sound.clients fd c found).2 (sound.sockets fd listening)
    have server : fd = p.epollFD → fd ∉ p.sockets ∧ ¬ ∃ c, p.manager.clients[fd]? = some c := by
      rintro rfl
      refine ⟨sound.apart, ?_⟩
      rintro ⟨c, found⟩
      exact (sound.clients _ c found).2 sound.epoll
    unfold getType
    rw [← client] at socket server ⊢
    split_ifs with known listening own
    · refine ⟨iff_of_true rfl known, iff_of_false (by simp) ?_, iff_of_false (by simp) ?_⟩
      · exact fun listening => socket listening known
      · exact fun own => (server own).2 known
    · refine ⟨iff_of_false (by simp) known, iff_of_true rfl listening, iff_of_false (by simp) ?_⟩
      exact fun own => (server own).1 listening
    · exact ⟨iff_of_false (by simp) known, iff_of_false (by simp) listening, iff_of_true rfl own⟩
    · exact ⟨iff_of_false (by simp) known, iff_of_false (by simp) listening,
        iff_of_false (by simp) own⟩
  · exact fun fd new => sound.free new

theorem getType_sound_site : ∃ p₀ p : Process, siteStartup.start {0, 1, 2} = some p₀ ∧
    Run (Fair 1024) p₀ [.accepted 1 0, .handled 1 0 (hangUp.event 0), .removed 1] p ∧
    p.getType 5 ≠ .client := by
  obtain ⟨p₀, p, started, run, gone⟩ := hangUp_run
  have fair := run.mono And.left
  refine ⟨p₀, p, started, fair, fun client => ?_⟩
  obtain ⟨c, found⟩ := ((getType_sound siteStartup_kept started fair).1 5).1.mp client
  cases gone.symm.trans found

/-- The descriptor of a socket that failed has been closed, and is not watched. -/
theorem start_unwatched (kept : s.Kept limit inherited) (started : s.start inherited = some p₀)
    (failed : ¬ s.Succeeds) : p₀.interest = ∅ := by
  obtain ⟨epollFD, created, rfl⟩ := Option.map_eq_some_iff.mp started
  have closed := Startup.listed_failed failed
  dsimp only
  rw [← Startup.listed, closed]
  split
  · rfl
  · next fd sockFD =>
    rw [addFD_snd]
    apply if_neg
    rintro ⟨_, there⟩
    have socket : s.socket = some fd := by
      obtain ⟨missing, _⟩ | ⟨_, socket, same⟩ := s.construct_cases
      · rw [missing] at sockFD
        cases sockFD
      · rwa [← Option.some.inj (same.symm.trans sockFD)]
    rw [List.toFinset_nil, Finset.empty_union] at there
    exact (kept.socket fd socket epollFD created).2 there

theorem run_unheard (kept : s.Kept limit inherited) (started : s.start inherited = some p₀)
    (failed : ¬ s.Succeeds) (run : Run (Fair limit) p₀ labels p) :
    labels = [] ∧ p = p₀ ∧ p.interest = ∅ := by
  have still := run.invariant (P := fun labels p => labels = [] ∧ p = p₀) ?_ ⟨rfl, rfl⟩
  · exact ⟨still.1, still.2, still.2 ▸ start_unwatched kept started failed⟩
  · rintro labels more p p' fd o ⟨rfl, rfl⟩ _ step
    obtain ⟨_, manager, sockets, _⟩ := Startup.start_fields started
    have turned := turn_turned step
    cases turned with
    | nothing => exact ⟨rfl, rfl⟩
    | accepted listening _ =>
      rw [sockets, Startup.listed_failed failed] at listening
      cases listening
    | kept found _ _ | removed found _ _ =>
      simp [manager, ClientManager.empty] at found

/-- **Deafness.** A server whose socket could not be set up comes to its loop all the same,
watches nothing, and never accepts a client. -/
theorem deaf (kept : s.Kept limit inherited) (created : s.epollCreate ≠ none)
    (failed : ¬ s.Succeeds) :
    ∃ p₀, s.start inherited = some p₀ ∧ ∀ labels p, Run (Fair limit) p₀ labels p →
      labels = [] ∧ p = p₀ ∧ p.interest = ∅ := by
  obtain ⟨epollFD, there⟩ := Option.ne_none_iff_exists'.mp created
  have started : ∃ p₀, s.start inherited = some p₀ := by
    rw [Startup.start, there]
    exact ⟨_, rfl⟩
  obtain ⟨p₀, started⟩ := started
  exact ⟨p₀, started, fun _ _ run => run_unheard kept started failed run⟩

/-- The port is taken. -/
def takenStartup : Startup := { siteStartup with bind := false }

theorem deaf_taken : ∃ p₀ p : Process, takenStartup.start {0, 1, 2} = some p₀ ∧
    Run (Fair 1024) p₀ [] p ∧ p.interest = ∅ := by
  have kept : takenStartup.Kept 1024 {0, 1, 2} :=
    ⟨siteStartup_kept.below, siteStartup_kept.epoll, siteStartup_kept.socket⟩
  obtain ⟨p₀, started, unheard⟩ := deaf kept (by decide) (by decide)
  obtain rfl : (takenStartup.start {0, 1, 2}).get rfl = p₀ := Option.some.inj started
  have each : Each (Fair 1024) ((takenStartup.start {0, 1, 2}).get rfl) [(4, connection)] :=
    ⟨connection_fair (by decide), fun _ _ _ => trivial⟩
  have run : Run (Fair 1024) _ [] _ := Run.loop .start each rfl
  exact ⟨_, _, started, run, (unheard _ _ run).2.2⟩

end

/-! ## What is watched -/

/-- What the loop reads of a client that it finds again. -/
theorem seen_present {p : Process} {fd : Nat} {o : Occasion} {c : ClientRecord}
    {m : ClientManager} (found : p.manager.clients[fd]? = some c)
    (handled : p.manager.handleClient c (o.event (p.start c.id)) = some m)
    (present : Epoller.Present p.manager fd (o.event (p.start c.id))) :
    ∃ client : Client, m = p.manager.setClient c.id client ∧
      seen m c.id o = ⟨client.session.fdState, fd, c.id⟩ := by
  have visited := p.manager.handleClient_visit (o.event (p.start c.id)) c
  rw [handled] at visited
  generalize c.client.visit _ = r at visited
  cases visited with
  | removed gone =>
    have missing : m.getClient c.id = none := by
      have absent := ClientManager.table_without gone
      have entry := congrFun absent c.id
      rw [Function.update_self] at entry
      exact Option.map_eq_none_iff.mp entry
    refine absurd ?_ present
    rw [Epoller.clientEvent, if_pos (Epoller.isClient_of_fd found), found]
    simp only [handled, missing]
  | kept client =>
    have stands := ClientManager.setClient_fd found client
    refine ⟨client, rfl, ?_⟩
    rw [seen, ClientManager.getClient_of_fd stands]
    simp only [p.manager.registered.keyed fd c found]

theorem setClient_isSome (m : ClientManager) (id : Nat) (client : Client) (k : Nat) :
    (m.setClient id client).clients[k]?.isSome = m.clients[k]?.isSome := by
  rw [ClientManager.setClient, Lib.Registry.getElem?_assign, Option.isSome_map]

/-- Without a client, its own descriptor is the only one to have none. -/
theorem removeClient_isSome {m : ClientManager} {fd : Nat} {c : ClientRecord}
    (found : m.clients[fd]? = some c) (k : Nat) :
    (m.removeClient c.id).clients[k]?.isSome = true ↔ k ≠ fd ∧ m.clients[k]?.isSome = true := by
  rw [(m.without_removeClient c.id).2]
  by_cases own : k = fd
  · subst own
    simp [found]
  · cases stands : m.clients[k]? with
    | none => simp
    | some d =>
      have other : d.id ≠ c.id := fun same => own (m.registered.unique k d fd c stands found same)
      simp [other, own]

theorem addFD_interest {p : Process} (within : p.interest ⊆ p.opened) (fd : Nat) (added : Bool) :
    (p.addFD fd added).2.interest ⊆ (p.addFD fd added).2.opened := by
  rw [addFD_snd]
  dsimp only
  split
  · next there => exact Finset.insert_subset there.2 within
  · exact within

theorem start_interest {s : Startup} {inherited : Finset Nat} {p : Process}
    (started : s.start inherited = some p) : p.interest ⊆ p.opened := by
  obtain ⟨epollFD, created, rfl⟩ := Option.map_eq_some_iff.mp started
  dsimp only
  split
  · exact Finset.empty_subset _
  · exact addFD_interest (Finset.empty_subset _) _ _

theorem turned_watched {limit : Nat} {initial watched : Finset Nat} {labels more : List Label}
    {p p' : Process} {fd : Nat} {o : Occasion} (sound : Sound limit initial labels p)
    (within : watched ⊆ initial) (heeded : Heeded limit p fd o)
    (each : ∀ k, k ∈ p.interest ↔ k ∈ watched ∨ p.manager.clients[k]?.isSome = true)
    (turned : Turned p fd o more p') (k : Nat) :
    k ∈ p'.interest ↔ k ∈ watched ∨ p'.manager.clients[k]?.isSome = true := by
  obtain ⟨_, added, present⟩ := heeded
  cases turned with
  | nothing => exact each k
  | @accepted new listening accept =>
    simp only [added, ↓reduceIte, Finset.mem_insert, each k, ClientManager.acceptClient,
      Std.TreeMap.getElem?_insert]
    by_cases own : k = new
    · simp [own]
    · rw [if_neg (by simpa [Nat.compare_eq_eq] using Ne.symm own)]
      simp [own]
  | @kept c m found handled still =>
    obtain ⟨client, rfl, _⟩ := seen_present found handled (present c found)
    rw [setClient_isSome]
    exact each k
  | @removed c m found handled closed =>
    obtain ⟨client, rfl, same⟩ := seen_present found handled (present c found)
    have stands := ClientManager.setClient_fd found client
    have deleted := removeClient_isSome stands k
    have own : fd ∉ watched := fun there => (sound.clients fd c found).2 (within there)
    simp only [same, Finset.mem_erase, each k] at deleted ⊢
    rw [deleted, setClient_isSome]
    by_cases mine : k = fd
    · subst mine
      simp [own]
    · simp [mine]

/-- **Watching.** As long as `epoll_ctl` does not fail and the loop finds its clients, epoll
watches what it did at first, and the descriptors of the clients. -/
theorem watched {s : Startup} {inherited : Finset Nat} {limit : Nat} {p₀ p : Process}
    {labels : List Label} (kept : s.Kept limit inherited)
    (started : s.start inherited = some p₀) (run : Run (Heeded limit) p₀ labels p) :
    ∀ fd, fd ∈ p.interest ↔ fd ∈ p₀.interest ∨ p.manager.clients[fd]?.isSome = true := by
  have both := run.invariant
    (P := fun labels p => Sound limit p₀.opened labels p ∧
      ∀ fd, fd ∈ p.interest ↔ fd ∈ p₀.interest ∨ p.manager.clients[fd]?.isSome = true) ?_ ?_
  · exact both.2
  · rintro labels more p p' fd o ⟨sound, each⟩ heeded step
    have turned := turn_turned step
    exact ⟨turned_sound sound heeded.1 turned,
      turned_watched sound (start_interest started) heeded each turned⟩
  · refine ⟨Startup.start_sound kept started, fun fd => ?_⟩
    rw [(Startup.start_fields started).2.1]
    simp [ClientManager.empty]

theorem watched_site : ∃ p₀ p : Process, siteStartup.start {0, 1, 2} = some p₀ ∧
    Run (Heeded 1024) p₀ [.accepted 1 0, .handled 1 0 (hangUp.event 0), .removed 1] p ∧
    (5 ∈ p.interest ↔ 5 ∈ p₀.interest) := by
  obtain ⟨p₀, p, started, run, gone⟩ := hangUp_run
  refine ⟨p₀, p, started, run, (watched siteStartup_kept started run 5).trans ?_⟩
  simp [gone]

end Process

end Http2Server
