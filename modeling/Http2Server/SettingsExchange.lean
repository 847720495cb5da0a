import Http2Server.Settings

/-!
# Keeping a receiver's settings up to date

A sender that only sends what it has changed since the last time, and a receiver
that decodes what it gets into the settings it has.
-/

namespace Http2Server

structure Exchange where
  sender : Settings := {}
  receiver : Settings := {}
  deriving DecidableEq, Repr

namespace Exchange

/-- A call of a setter, or sending: `encode`, `mark_clean`, and `decode` at the
receiver. -/
inductive Step where
  | setHeaderTableSize (value : UInt32)
  | setEnablePush (enablePush : Bool)
  | setMaxConcurrentStreams (value : UInt32)
  | setInitialWindowSize (value : UInt32)
  | setMaxFrameSize (value : UInt32)
  | setMaxHeaderListSize (value : UInt32)
  | transmit
  deriving DecidableEq, Repr

/-- The payload decoded by the receiver. -/
def received (ex : Exchange) : ErrorCode × Settings := ex.receiver.decode ex.sender.encode

/-- `none` is an argument that a setter's `assert` refuses. -/
def step (ex : Exchange) : Step → Option Exchange
  | .setHeaderTableSize v => some { ex with sender := ex.sender.setHeaderTableSize v.toNat }
  | .setEnablePush b => some { ex with sender := ex.sender.setEnablePush b }
  | .setMaxConcurrentStreams v =>
    some { ex with sender := ex.sender.setMaxConcurrentStreams v.toNat }
  | .setInitialWindowSize v =>
    (ex.sender.setInitialWindowSize v.toNat).map fun sender => { ex with sender }
  | .setMaxFrameSize v => (ex.sender.setMaxFrameSize v.toNat).map fun sender => { ex with sender }
  | .setMaxHeaderListSize v => some { ex with sender := ex.sender.setMaxHeaderListSize v.toNat }
  | .transmit => some { sender := ex.sender.markClean, receiver := ex.received.2 }

def run : List Step → Exchange → Option Exchange
  | [], ex => some ex
  | op :: ops, ex => (ex.step op).bind (run ops)

/-- What a setter can do: assign one parameter a value in its range. -/
theorem step_cases {ex ex' : Exchange} {op : Step} (h : ex.step op = some ex') :
    op = .transmit ∧ ex' = { sender := ex.sender.markClean, receiver := ex.received.2 } ∨
      ∃ (p : SettingsType) (value : Nat), p.Allowed value ∧ value < 2 ^ 32 ∧
        ex' = { ex with sender := (ex.sender.set p value).markDirty p } := by
  cases op with
  | setHeaderTableSize v =>
    exact .inr ⟨.headerTableSize, v.toNat, trivial, v.toNat_lt, (Option.some.inj h).symm⟩
  | setEnablePush b =>
    exact .inr ⟨.enablePush, if b then 1 else 0, by cases b <;> decide, by cases b <;> decide,
      (Option.some.inj h).symm⟩
  | setMaxConcurrentStreams v =>
    exact .inr ⟨.maxConcurrentStreams, v.toNat, trivial, v.toNat_lt, (Option.some.inj h).symm⟩
  | setInitialWindowSize v =>
    simp only [step, Settings.setInitialWindowSize] at h
    split at h
    · next allowed =>
      exact .inr ⟨.initialWindowSize, v.toNat, allowed, v.toNat_lt, (Option.some.inj h).symm⟩
    · cases h
  | setMaxFrameSize v =>
    simp only [step, Settings.setMaxFrameSize] at h
    split at h
    · next allowed =>
      exact .inr ⟨.maxFrameSize, v.toNat, allowed, v.toNat_lt, (Option.some.inj h).symm⟩
    · cases h
  | setMaxHeaderListSize v =>
    exact .inr ⟨.maxHeaderListSize, v.toNat, trivial, v.toNat_lt, (Option.some.inj h).symm⟩
  | transmit => exact .inl ⟨rfl, (Option.some.inj h).symm⟩

/-- The receiver is behind in dirty parameters only. -/
structure InStep (ex : Exchange) : Prop where
  sendable : ex.sender.Sendable
  agree : ∀ p, ex.sender.isDirty p = false → ex.receiver.get p = ex.sender.get p

theorem inStep_default : InStep {} := by
  refine ⟨Settings.sendable_default, ?_⟩
  intro p _
  rfl

/-- Sending brings the receiver up to date. -/
theorem InStep.received {ex : Exchange} (h : InStep ex) :
    ex.received.1 = .noError ∧ ∀ p, ex.received.2.get p = ex.sender.get p := by
  obtain ⟨receiver, decodes, values⟩ := Settings.decode_encode ex.receiver h.sendable
  rw [Exchange.received, decodes]
  refine ⟨rfl, ?_⟩
  intro p
  rw [values]
  split
  · rfl
  · next clean => exact h.agree p (by simpa using clean)

theorem step_inStep {ex ex' : Exchange} {op : Step} (h : InStep ex)
    (stepped : ex.step op = some ex') : InStep ex' := by
  obtain ⟨-, rfl⟩ | ⟨q, value, allowed, wide, rfl⟩ := step_cases stepped
  · constructor
    · intro p
      rw [Settings.get_markClean]
      exact h.sendable p
    · intro p _
      rw [Settings.get_markClean]
      exact h.received.2 p
  · constructor
    · intro p
      simp only [Settings.get_markDirty, Settings.get_set]
      split
      · next same => exact same ▸ ⟨allowed, wide⟩
      · exact h.sendable p
    · intro p clean
      rw [Settings.isDirty_markDirty, Bool.or_eq_false_iff, decide_eq_false_iff_not] at clean
      rw [Settings.get_markDirty, Settings.get_set, if_neg clean.1]
      have kept : (ex.sender.set q value).isDirty p = ex.sender.isDirty p := by
        cases q <;> rfl
      exact h.agree p (kept ▸ clean.2)

theorem run_inStep {ops : List Step} {ex ex' : Exchange} (h : InStep ex)
    (ran : run ops ex = some ex') : InStep ex' := by
  induction ops generalizing ex with
  | nil => exact Option.some.inj ran ▸ h
  | cons op ops ih =>
    obtain ⟨next, stepped, rest⟩ := Option.bind_eq_some_iff.mp ran
    exact ih (step_inStep h stepped) rest

/-- **Exchange.** Whatever setters have been called and whatever has been sent,
sending is decoded without error and leaves both ends with the same values. -/
theorem transmit_agrees (ops : List Step) (ex : Exchange) (ran : run ops {} = some ex) :
    ex.received.1 = .noError ∧ ∃ ex', ex.step .transmit = some ex' ∧
      ∀ p, ex'.receiver.get p = ex'.sender.get p := by
  obtain ⟨decodes, values⟩ := (run_inStep inStep_default ran).received
  refine ⟨decodes, _, rfl, ?_⟩
  intro p
  rw [Settings.get_markClean]
  exact values p

/-- A parameter changed, sent, and changed again with another. -/
theorem transmit_agrees_twice :
    ∃ ex, run [.setMaxFrameSize 20000, .transmit, .setEnablePush false,
        .setMaxFrameSize 16384] {} = some ex ∧
      ex.received.1 = .noError ∧ ∃ ex', ex.step .transmit = some ex' ∧
        ∀ p, ex'.receiver.get p = ex'.sender.get p := by
  have runs : (run [.setMaxFrameSize 20000, .transmit, .setEnablePush false,
      .setMaxFrameSize 16384] {}).isSome := by decide +kernel
  obtain ⟨ex, ran⟩ := Option.isSome_iff_exists.mp runs
  exact ⟨ex, ran, transmit_agrees _ ex ran⟩

end Exchange

end Http2Server
