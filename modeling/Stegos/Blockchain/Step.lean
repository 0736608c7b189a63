import Stegos.Blockchain.Register
import Stegos.Lib.Run

/-!
# Runs of the blockchain

The blockchain as a state machine: its public calls that change it
(`ChainEvent`) are its steps, and a run starts from the chain that
`Blockchain::new` makes of a genesis block. A call that panics or returns an
error is not a step.

Two step functions: `step`, the calls as the blockchain takes them, and
`validatedStep`, the calls as the node makes them, a block validated before
it is pushed (`validate_micro_block`, `validate_macro_block`). A run of
validated steps is a run of steps (`Reachable.of_validated`), so what holds
along every run of `step` holds along every run the node makes, and a run of
`validatedStep` that breaks a property breaks it for the blockchain too.
-/

namespace Stegos

/-- The public calls that change the blockchain. -/
inductive ChainEvent (Fr Pt : Type)
  | pushMicroBlock (block : MicroBlock Fr Pt) (timestamp : ℕ)
  | popMicroBlock
  | pushMacroBlock (block : MacroBlock Fr Pt) (timestamp : ℕ)
  | setViewChange (viewChange : ℕ) (proof : ViewChangeProof)
  | resetViewChange

namespace Blockchain

variable {Fr Pt : Type} [AddCommGroup Fr] [AddCommGroup Pt] [DecidableEq Pt]
  (κ : Crypto Fr Pt)

/-- A call of the blockchain, its returned values dropped. -/
def step (self : Blockchain Fr Pt) : ChainEvent Fr Pt → Except Fault (Blockchain Fr Pt)
  | .pushMicroBlock block timestamp => Prod.snd <$> self.pushMicroBlock κ block timestamp
  | .popMicroBlock => Prod.snd <$> self.popMicroBlock κ
  | .pushMacroBlock block timestamp => Prod.snd <$> self.pushMacroBlock κ block timestamp
  | .setViewChange viewChange proof => self.setViewChange viewChange proof
  | .resetViewChange => self.resetViewChange

/-- A call as the node makes it: a block is validated before it is pushed. -/
def validatedStep (self : Blockchain Fr Pt) : ChainEvent Fr Pt → Except Fault (Blockchain Fr Pt)
  | .pushMicroBlock block timestamp => do
    self.validateMicroBlock κ block timestamp true
    self.step κ (.pushMicroBlock block timestamp)
  | .pushMacroBlock block timestamp => do
    self.validateMacroBlock κ block timestamp
    self.step κ (.pushMacroBlock block timestamp)
  | e => self.step κ e

variable {κ}

/-- A validated step is a step. -/
theorem step_of_validatedStep {s s' : Blockchain Fr Pt} {e : ChainEvent Fr Pt}
    (h : s.validatedStep κ e = .ok s') : s.step κ e = .ok s' := by
  cases e with
  | pushMicroBlock block timestamp =>
    simp only [validatedStep, bind, Except.bind] at h
    split at h
    · cases h
    · exact h
  | pushMacroBlock block timestamp =>
    simp only [validatedStep, bind, Except.bind] at h
    split at h
    · cases h
    · exact h
  | popMicroBlock => exact h
  | setViewChange viewChange proof => exact h
  | resetViewChange => exact h

/-- A chain reached by validated steps is reached by steps. -/
theorem Reachable.of_validated {init : Blockchain Fr Pt → Prop} {s : Blockchain Fr Pt}
    (h : Transition.Reachable init (validatedStep κ) s) : Transition.Reachable init (step κ) s := by
  induction h with
  | init h₀ => exact .init h₀
  | step _ hs ih => exact .step ih (step_of_validatedStep hs)

end Blockchain

end Stegos
