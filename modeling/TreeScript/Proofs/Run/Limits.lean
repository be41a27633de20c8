import TreeScript.Proofs.Run.Frames
import TreeScript.Proofs.Run.Simulation

/-!
# More fuel and a higher limit

A run that has ended ends in the same way with more fuel, and under a higher limit on the calls it
ends in the same way too, unless it was the limit that ended it: no construct of the language
catches an error, so an overflow anywhere inside a run is the end of the run.

Both are one `Simulation`, `raised`, of runs from the same state.  Its only excuse is an overflow
under a limit that is really lower.
-/

namespace TreeScript

/-! ## 1. Runs from the same state -/

/-- Two runs from the same state, the second of them under a limit that may be higher.  If it is, an
overflow of the first says nothing about the second. -/
def Simulation.raised (limit limit' : Nat) : Simulation where
  states := Eq
  excused error := limit < limit' ∧ error = .stackOverflow limit

variable {limit limit' fuel fuel' : Nat}

/-- What does not ask for the limit follows itself. -/
theorem Action.followedBy_self {α : Type} (x : Action α) :
    x.FollowedBy (.raised limit limit') x := by
  rintro st st' rfl
  cases hx : x st with
  | done value st₁ => exact ⟨st₁, rfl, rfl⟩
  | failed error st₁ => exact Or.inr ⟨st₁, rfl, rfl⟩
  | exhausted => trivial

/-- A run has ended, and not in an overflow. -/
def Outcome.EndsWithoutOverflow {α : Type} : Outcome α → Prop
  | .done _ _ => True
  | .failed error _ => error.kind ≠ .stackOverflow
  | .exhausted => False

theorem Outcome.FollowedBy.eq_of_raised {α : Type} {outcome outcome' : Outcome α}
    (h : outcome.FollowedBy (.raised limit limit') outcome') (hends : outcome ≠ .exhausted)
    (hexcused : ∀ error st, outcome = .failed error st →
      ¬ (Simulation.raised limit limit').excused error) : outcome' = outcome := by
  cases outcome with
  | done value st =>
    obtain ⟨st', rfl, rfl⟩ := h
    rfl
  | failed error st =>
    rcases h with h | ⟨st', rfl, rfl⟩
    · exact absurd h (hexcused error st rfl)
    · rfl
  | exhausted => exact absurd rfl hends

namespace Interpreter

/-! ## 2. Calls -/

/-- A call that is let in under the lower limit is let in under the higher one. -/
theorem callFunction_raised {run run' : Stmt → Action Signal} (hlimit : limit ≤ limit')
    (f : FunctionDef) (arguments : List Value)
    (hrun : (run f.body).FollowedBy (.raised limit limit') (run' f.body))
    (hkeeps : ∀ st, (run f.body st).Leaves fun _ st' => st'.stack.callers = st.stack.callers)
    (hkeeps' : ∀ st, (run' f.body st).Leaves fun _ st' => st'.stack.callers = st.stack.callers) :
    (callFunction limit run f arguments).FollowedBy (.raised limit limit')
      (callFunction limit' run' f arguments) := by
  rintro st st' rfl
  rcases Nat.lt_or_ge arguments.length f.parameters.length with hfew | henough
  · rw [callFunction_few hfew, callFunction_few hfew]
    exact Or.inr ⟨st, rfl, rfl⟩
  rcases Nat.lt_or_ge limit st.stack.depth with hdeep | hroom
  · rw [callFunction_deep henough hdeep]
    rcases Nat.lt_or_eq_of_le hlimit with hlt | rfl
    · exact Or.inl ⟨hlt, rfl⟩
    · rw [callFunction_deep henough hdeep]
      exact Or.inr ⟨_, rfl, rfl⟩
  · rw [callFunction_eq_restore henough hroom (hkeeps _),
      callFunction_eq_restore henough (Nat.le_trans hroom hlimit) (hkeeps' _)]
    refine (hrun _ _ rfl).restore ?_
    rintro st₁ st₂ rfl
    rfl

theorem callWith_raised {run run' : Stmt → Action Signal} (hlimit : limit ≤ limit')
    (hrun : ∀ s, (run s).FollowedBy (.raised limit limit') (run' s))
    (hkeeps : ∀ s st, (run s st).Leaves fun _ st' => st'.stack.callers = st.stack.callers)
    (hkeeps' : ∀ s st, (run' s st).Leaves fun _ st' => st'.stack.callers = st.stack.callers)
    (name : String) (arguments : List Value) :
    (callWith limit run name arguments).FollowedBy (.raised limit limit')
      (callWith limit' run' name arguments) := by
  unfold callWith
  cases Builtin.ofName? name with
  | some b => exact Action.followedBy_self _
  | none =>
    refine (Action.followedBy_self _).bind fun st => ?_
    cases Entries.get? st.functions name with
    | some f =>
      exact callFunction_raised hlimit f arguments (hrun f.body) (hkeeps f.body) (hkeeps' f.body)
    | none => exact Action.followedBy_self _

/-! ## 3. Expressions, statements and programs -/

/-- **With more fuel and under a higher limit a run goes the same way**, up to its end or to an
overflow of the lower limit. -/
theorem run_raised (hlimit : limit ≤ limit') (hfuel : fuel ≤ fuel') :
    (∀ e, (eval limit fuel e).FollowedBy (.raised limit limit') (eval limit' fuel' e)) ∧
      ∀ s, (exec limit fuel s).FollowedBy (.raised limit limit') (exec limit' fuel' s) := by
  induction fuel generalizing fuel' with
  | zero =>
    refine ⟨fun e => ?_, fun s => ?_⟩
    · rw [eval.eq_1]
      exact Action.followedBy_exhaust _
    · rw [exec.eq_1]
      exact Action.followedBy_exhaust _
  | succ fuel ih =>
    obtain ⟨more, rfl⟩ : ∃ more, fuel' = more + 1 := ⟨fuel' - 1, by omega⟩
    have hmore : fuel ≤ more := Nat.le_of_succ_le_succ hfuel
    obtain ⟨heval, hexec⟩ := ih hmore
    have heval' : ∀ e e', e = e' →
        (eval limit fuel e).FollowedBy (.raised limit limit') (eval limit' more e') := by
      rintro e _ rfl
      exact heval e
    have hexec' : ∀ s s', s = s' →
        (exec limit fuel s).FollowedBy (.raised limit limit') (exec limit' more s') := by
      rintro s _ rfl
      exact hexec s
    have hcall := callWith_raised hlimit hexec (exec_callers limit fuel) (exec_callers limit' more)
    refine ⟨fun e => ?_, fun s => ?_⟩
    · exact eval_followedBy heval' (fun _ => Action.followedBy_self _) hcall
        (Expr.Alike.refl (fun _ => rfl) e)
    · refine exec_followedBy heval' hexec' hmore (fun _ _ => Action.followedBy_self _) ?_
        (Stmt.Alike.refl (fun _ => rfl) (fun _ => rfl) s)
      rintro name parameters b _ rfl
      exact Action.followedBy_self _

theorem executeAll_raised (hlimit : limit ≤ limit') (hfuel : fuel ≤ fuel') :
    ∀ (statements : List Stmt) (last : Value),
      (executeAll limit fuel last statements).FollowedBy (.raised limit limit')
        (executeAll limit' fuel' last statements)
  | [], _ => Action.followedBy_pure _
  | s :: rest, _ =>
    ((run_raised hlimit hfuel).2 s).bind fun signal =>
      executeAll_raised hlimit hfuel rest signal.value

/-- **More fuel changes nothing** about a program that has ended. -/
theorem execute_fuel_le (hfuel : fuel ≤ fuel') {p : Program} {st : State}
    (hends : execute limit fuel p st ≠ .exhausted) :
    execute limit fuel' p st = execute limit fuel p st := by
  have hrun := executeAll_raised (Nat.le_refl limit) hfuel p.statements .absence st st rfl
  exact hrun.eq_of_raised hends fun _ _ _ hexcused => Nat.lt_irrefl _ hexcused.1

/-- **A higher limit changes nothing but overflow.**  A program that ends otherwise than in an
overflow ends, under any higher limit and with any more fuel, with the same value or error and in
the same state: output, records, files, functions and bindings. -/
theorem execute_limit_le (hlimit : limit ≤ limit') (hfuel : fuel ≤ fuel') (p : Program)
    (st : State) (hends : (execute limit fuel p st).EndsWithoutOverflow) :
    execute limit' fuel' p st = execute limit fuel p st := by
  have hrun := executeAll_raised hlimit hfuel p.statements .absence st st rfl
  refine hrun.eq_of_raised ?_ ?_
  · intro hexhausted
    have hexecute : execute limit fuel p st = .exhausted := hexhausted
    rw [hexecute] at hends
    exact hends
  · rintro error st' hfailed ⟨-, rfl⟩
    have hexecute : execute limit fuel p st = .failed (.stackOverflow limit) st' := hfailed
    rw [hexecute] at hends
    exact hends rfl

/-- A program whose function calls itself until it runs into a name that is not bound. -/
def stumbling : Program :=
  ⟨[.declare "f" [⟨"p", none⟩]
      (.branch (.identifier "p") (.evaluate (.call "f" [.literal (.boolean false) .boolean]))
        (some (.evaluate (.identifier "q")))),
    .evaluate (.call "f" [.literal (.boolean true) .boolean])]⟩

/-- Two calls are enough for it to fail on its own account, and so it does where seven are
allowed; where one is allowed it overflows instead. -/
theorem execute_limit_le_stumbling :
    execute 7 30 stumbling {} = execute 2 9 stumbling {} ∧
      (∃ st, execute 2 9 stumbling {} = .failed (.unboundName "q") st) ∧
      ∃ st, execute 1 9 stumbling {} = .failed (.stackOverflow 1) st := by
  have hfailed : execute 2 9 stumbling {} = .failed (.unboundName "q") _ := rfl
  have hends : (execute 2 9 stumbling {}).EndsWithoutOverflow := by
    rw [hfailed]
    exact nofun
  exact ⟨execute_limit_le (by decide) (by decide) stumbling {} hends, ⟨_, hfailed⟩, ⟨_, rfl⟩⟩

end Interpreter

end TreeScript
