import LifecycleTelemetry.Failure.Chain
import Mathlib.Logic.Function.Iterate

/-!
# Causes of failures

Every kind of failure says a text of its own and may have one other failure behind it. The library's error
type puts a word of its own in front of configuration and telemetry errors, which then lie behind it as they
are. For what it only passes on it is transparent: it says what that says, and what lies behind that lies
behind it.

The causes of a failure are what lies behind it, what lies behind that, and so on. The chain of texts is what
the failure and its causes say. It is the same with and without the transparent parts, wherever they stand, so
that a failure may be put into the library's type and be taken out again any number of times.
-/

namespace LifecycleTelemetry

namespace Failure

/-- What lies behind a failure of the metrics file: the error of the system, or that of the text format. -/
def ConfigError.behind? : ConfigError → Option Failure
  | .noDirectory => none
  | .createDirectory _ source => some (.system source)
  | .write _ source => some (.system source)
  | .serialize text => some (.message text)

end Failure

mutual

/-- What a failure says itself. -/
def Failure.ownText : Failure → String
  | .message text => text
  | .cancelled c => c.message
  | .config e => e.message
  | .telemetry e => e.message
  | .system e => e.message
  | .library e => LibraryError.ownText e
  | .context outer _ => outer.message

/-- What the library's error says itself. -/
def LibraryError.ownText : LibraryError → String
  | .config e => "config: " ++ e.message
  | .telemetry e => "telemetry: " ++ e.message
  | .cancelled c => c.message
  | .other inner => Failure.ownText inner

end

mutual

/-- What lies right behind a failure. -/
def Failure.behind? : Failure → Option Failure
  | .message _ => none
  | .cancelled _ => none
  | .config e => e.behind?
  | .telemetry _ => none
  | .system _ => none
  | .library e => LibraryError.behind? e
  | .context _ inner => some inner

/-- What lies right behind the library's error. -/
def LibraryError.behind? : LibraryError → Option Failure
  | .config e => some (.config e)
  | .telemetry e => some (.telemetry e)
  | .cancelled _ => none
  | .other inner => Failure.behind? inner

end

mutual

/-- A failure without the parts that only pass on what they hold. -/
def Failure.bared : Failure → Failure
  | .message text => .message text
  | .cancelled c => .cancelled c
  | .config e => .config e
  | .telemetry e => .telemetry e
  | .system e => .system e
  | .library e => LibraryError.bared e
  | .context outer inner => .context outer (Failure.bared inner)

/-- What remains of the library's error without the parts that only pass on what they hold. -/
def LibraryError.bared : LibraryError → Failure
  | .config e => .library (.config e)
  | .telemetry e => .library (.telemetry e)
  | .cancelled c => .cancelled c
  | .other inner => Failure.bared inner

end

namespace Failure

/-- A failure that has been put into the library's error type and been taken out again. -/
def passedOn (f : Failure) : Failure :=
  .library (.other f)

/-- All that lies behind a failure, from the nearest cause to the first. -/
inductive HasCauses : Failure → List Failure → Prop where
  | none
      {f : Failure}
      (hfirst : f.behind? = none) :
      HasCauses f []
  | behind
      {f cause : Failure}
      {causes : List Failure}
      (hcause : f.behind? = some cause)
      (hcauses : HasCauses cause causes) :
      HasCauses f (cause :: causes)

/-! ## The chain -/

/-- A chain begins with what the failure says itself, and goes on with the chain of what lies behind it. -/
theorem chain_eq_cons
    (f : Failure) :
    f.chain = f.ownText :: (f.behind?.map Failure.chain).getD [] := by
  induction f using Failure.rec
    (motive_2 := fun e => e.chain = e.ownText :: (e.behind?.map Failure.chain).getD []) with
  | config e =>
      cases e with
      | _ => rfl
  | library e ih => exact ih
  | other inner ih => exact ih
  | _ => rfl

theorem text_eq_ownText
    (f : Failure) :
    f.text = f.ownText := by
  rw [text, chain_eq_cons]
  rfl

/-- The chain is what the failure and its causes say. -/
theorem HasCauses.chain_eq
    {f : Failure}
    {causes : List Failure}
    (h : f.HasCauses causes) :
    f.chain = f.ownText :: causes.map ownText := by
  induction h with
  | none hfirst =>
      rw [chain_eq_cons, hfirst]
      rfl
  | behind hcause _ ih =>
      rw [chain_eq_cons, hcause]
      exact congrArg _ ih

/-- Every failure has causes, as its chain ends. -/
theorem exists_hasCauses
    (f : Failure) :
    ∃ causes, f.HasCauses causes := by
  induction hlength : f.chain.length generalizing f with
  | zero =>
      exact absurd (List.length_eq_zero_iff.mp hlength) f.chain_ne_nil
  | succ n ih =>
      cases hcause : f.behind? with
      | none =>
          exact ⟨[], .none hcause⟩
      | some cause =>
          rw [chain_eq_cons, hcause] at hlength
          obtain ⟨causes, hcauses⟩ := ih cause (Nat.succ.inj hlength)
          exact ⟨cause :: causes, .behind hcause hcauses⟩

theorem HasCauses.unique
    {f : Failure}
    {causes others : List Failure}
    (h : f.HasCauses causes)
    (hother : f.HasCauses others) :
    causes = others := by
  induction h generalizing others with
  | none hfirst =>
      cases hother with
      | none => rfl
      | behind hcause => cases hfirst.symm.trans hcause
  | behind hcause _ ih =>
      cases hother with
      | none hfirst => cases hfirst.symm.trans hcause
      | behind hsame hcauses =>
          obtain rfl := Option.some.inj (hcause.symm.trans hsame)
          rw [ih hcauses]

/-! ## Transparent parts -/

/-- The parts that only pass on what they hold leave no trace in a chain. -/
theorem chain_bared
    (f : Failure) :
    f.bared.chain = f.chain := by
  induction f using Failure.rec (motive_2 := fun e => e.bared.chain = e.chain) with
  | library e ih => exact ih
  | other inner ih => exact ih
  | context outer inner ih => exact congrArg (outer.message :: ·) ih
  | _ => rfl

theorem chain_eq_of_bared_eq
    {f g : Failure}
    (h : f.bared = g.bared) :
    f.chain = g.chain := by
  rw [← chain_bared f, h, chain_bared]

/-- Passing a failure on any number of times adds nothing but transparent parts. -/
@[simp]
theorem bared_iterate_passedOn
    (f : Failure)
    (n : Nat) :
    (passedOn^[n] f).bared = f.bared := by
  induction n with
  | zero => rfl
  | succ n ih =>
      rw [Function.iterate_succ_apply']
      exact ih

end Failure
end LifecycleTelemetry
