import Http2Server.Uploads

/-!
# The peer's settings

`ackSettings` decodes a payload into new settings and puts them in the place of
the client's, so that a parameter the frame does not mention goes back to its
default.

- `handleFrame_settings`: the settings after a frame.
- `settings_last_given_iff`: when they are the last values given.
-/

namespace Http2Server.FrameHandler

/-- A SETTINGS frame that is applied and acknowledged. -/
def ValidSettings (f : Frame) : Prop :=
  f.sid = 0 ∧ f.type = FrameType.settings.code ∧ f.hasFlag Flag.ack = false ∧
    (({} : Settings).decode f.payload).1 = .noError

instance : DecidablePred ValidSettings := fun _ => inferInstanceAs (Decidable (_ ∧ _))

/-- The settings a payload has for a new client. -/
def settingsOf (f : Frame) : Settings := (({} : Settings).decode f.payload).2

theorem decode_settingsOf {f : Frame} (h : ValidSettings f) :
    ({} : Settings).decode f.payload = (.noError, settingsOf f) :=
  Prod.ext h.2.2.2 rfl

/-- The frame that acknowledges settings. -/
def settingsAck : Frame := { type := FrameType.settings.code, flags := Flag.ack }

theorem settingsAck_plain : settingsAck.Plain :=
  Frame.plain_of_flags (by decide) (by decide) (by decide)

section
variable (env : Env) (s : Session)

theorem sendFrame_settings (f : Frame) (weight : Int) :
    (sendFrame env s f weight).2.settings = s.settings := by
  unfold sendFrame
  split <;> rfl

theorem processEndHeader_settings (strm : Stream) :
    (processEndHeader env s strm).2.2.settings = s.settings := by
  apply processEndHeader_invariant env strm (P := (·.settings = s.settings)) rfl
  · exact fun _ _ kept => kept
  · exact fun _ _ _ _ _ _ _ _ kept => kept

/-- Valid settings replace those of the client, before they are acknowledged. -/
theorem dispatch_valid {f : Frame} (h : ValidSettings f) :
    dispatch env s f =
      (.returned true, (sendFrame env { s with settings := settingsOf f } settingsAck 0).2) := by
  have decodes := decode_settingsOf h
  obtain ⟨zero, type, asked, ok⟩ := h
  simp only [dispatch, type, FrameType.ofCode_code, handleSettingsFrame, zero, asked, ne_eq,
    not_true_eq_false, ↓reduceIte]
  obtain ⟨settings, taken, acked⟩ | ⟨dropped, _⟩ := ackSettings_cases env s f
  · rw [decodes] at taken
    obtain ⟨_, rfl⟩ := Prod.mk.inj taken
    exact acked
  · exact absurd ok dropped

/-- Settings that do not decode are dropped. -/
theorem ackSettings_invalid {f : Frame} (zero : f.sid = 0) (type : f.type = FrameType.settings.code)
    (asked : f.hasFlag Flag.ack = false) (h : ¬ ValidSettings f) :
    ackSettings env s f = (.returned false, s) := by
  obtain ⟨_, ok, _⟩ | ⟨_, dropped⟩ := ackSettings_cases env s f
  · exact absurd ⟨zero, type, asked, congrArg Prod.fst ok⟩ h
  · exact dropped

/-- Nothing else changes them. -/
theorem dispatch_other_settings {f : Frame} (h : ¬ ValidSettings f) :
    (dispatch env s f).2.settings = s.settings := by
  apply (dispatch_effect env s f).invariant (P := (·.settings = s.settings)) rfl
  · exact fun _ _ kept => kept
  · exact fun strm _ => processEndHeader_settings env s strm
  · intro zero type asked
    rw [ackSettings_invalid env s zero type asked h]
  · exact fun _ _ => sendFrame_settings env s _ 0
  · rfl

theorem handleFrame_settings (f : Frame) :
    (handleFrame env s f).2.settings = if ValidSettings f then settingsOf f else s.settings := by
  rw [handleFrame]
  split
  · next valid =>
    rw [dispatch_valid env _ valid, sendFrame_settings]
  · next invalid => exact dispatch_other_settings env _ invalid

end

/-! ## Runs -/

/-- The valid SETTINGS frames of a run. -/
def settingsFrames (trace : List (Frame × Bool)) : List Frame :=
  (trace.map Prod.fst).filter (ValidSettings ·)

theorem settingsFrames_cons (f : Frame) (ok : Bool) (rest : List (Frame × Bool)) :
    settingsFrames ((f, ok) :: rest) =
      if ValidSettings f then f :: settingsFrames rest else settingsFrames rest := by
  simp only [settingsFrames, List.map_cons, List.filter_cons, decide_eq_true_eq]

/-- What they give, in order. -/
def given (fs : List Frame) : List (Nat × Nat) := fs.flatMap fun f => Settings.entries f.payload

theorem given_concat (init : List Frame) (last : Frame) :
    given (init ++ [last]) = given init ++ Settings.entries last.payload := by
  simp only [given, List.flatMap_append, List.flatMap_cons, List.flatMap_nil, List.append_nil]

/-- The client has the settings of the last one. -/
theorem run_settings {env : Env} {s s' : Session} {trace : List (Frame × Bool)}
    (run : Run env s trace s') :
    s'.settings = ((settingsFrames trace).getLast?.map settingsOf).getD s.settings := by
  induction run with
  | nil => rfl
  | @step s _ _ f ok rest handled _ ih =>
    have next := handleFrame_settings env s f
    rw [handled] at next
    rw [ih, next, settingsFrames_cons]
    split
    · rw [List.getLast?_cons]
      cases (settingsFrames rest).getLast? <;> rfl
    · rfl

/-- What the last frame does not mention, those before it leave at its default. -/
def RestDefault (fs : List Frame) : Prop :=
  ∀ last ∈ fs.getLast?, ∀ p, Settings.lastGiven p (Settings.entries last.payload) = none →
    ∀ value ∈ Settings.lastGiven p (given fs.dropLast), value = ({} : Settings).get p

/-- **Settings.** After a run from a new client, every parameter has the last
value given for it, or its default, exactly where what the last SETTINGS frame
does not mention is at its default anyway. -/
theorem settings_last_given_iff (env : Env) (trace : List (Frame × Bool)) (s' : Session)
    (run : Run env {} trace s') :
    (∀ p, s'.settings.get p =
      (Settings.lastGiven p (given (settingsFrames trace))).getD (({} : Settings).get p)) ↔
      RestDefault (settingsFrames trace) := by
  have final := run_settings run
  obtain none | ⟨init, last, split⟩ := List.eq_nil_or_concat (settingsFrames trace)
  · rw [none] at final ⊢
    exact iff_of_true (fun p => by rw [final]; rfl) (by simp [RestDefault])
  · rw [List.concat_eq_append] at split
    have valid : ValidSettings last := by
      have member : last ∈ settingsFrames trace := by simp [split]
      simpa using (List.mem_filter.mp member).2
    have values (p : SettingsType) := Settings.decode_get (decode_settingsOf valid) p
    simp only [split, List.getLast?_concat, Option.map_some, Option.getD_some] at final
    rw [split, RestDefault, final]
    simp only [values, given_concat, Settings.lastGiven_append, List.getLast?_concat,
      Option.mem_some_iff, List.dropLast_concat, forall_eq']
    apply forall_congr'
    intro p
    cases Settings.lastGiven p (Settings.entries last.payload) with
    | some value => simp
    | none =>
      cases Settings.lastGiven p (given init) with
      | none => simp
      | some value => simp [eq_comm]

/-- A larger frame size, -/
def largeFrames : Frame :=
  { type := FrameType.settings.code, payload := [0x00, 0x05, 0x00, 0x00, 0x80, 0x00] }

/-- and then a frame that only turns off push. -/
def noPush : Frame :=
  { type := FrameType.settings.code, payload := [0x00, 0x02, 0x00, 0x00, 0x00, 0x00] }

theorem settings_run : ∃ s', Run siteEnv {} [(largeFrames, true), (noPush, true)] s' :=
  ⟨_, .step (handleFrame_eta (by decide +kernel))
    (.step (handleFrame_eta (by decide +kernel)) (.nil _))⟩

theorem settings_last_given_iff_twice :
    ∃ s', Run siteEnv {} [(largeFrames, true), (noPush, true)] s' ∧
      ((∀ p, s'.settings.get p =
        (Settings.lastGiven p (given (settingsFrames [(largeFrames, true), (noPush, true)]))).getD
          (({} : Settings).get p)) ↔
        RestDefault (settingsFrames [(largeFrames, true), (noPush, true)])) := by
  obtain ⟨s', run⟩ := settings_run
  exact ⟨s', run, settings_last_given_iff siteEnv _ s' run⟩

/-- The frame size is back at its default. -/
theorem settings_forgotten :
    ∃ s', Run siteEnv {} [(largeFrames, true), (noPush, true)] s' ∧
      ¬ ∀ p, s'.settings.get p =
        (Settings.lastGiven p (given (settingsFrames [(largeFrames, true), (noPush, true)]))).getD
          (({} : Settings).get p) := by
  obtain ⟨s', run⟩ := settings_run
  refine ⟨s', run, ?_⟩
  intro kept
  have final : s'.settings.get .maxFrameSize = 16384 := by
    rw [run_settings run]
    decide +kernel
  rw [kept] at final
  revert final
  decide +kernel

end Http2Server.FrameHandler
