import GrammarModule.Sink

/-!
# GrammarModule.Proofs.Sink

The order of a publication onto an object of a host that may do anything. `publish_eq` spells it
out as four requests, each made only when the ones before it were granted.
-/

namespace GrammarModule
namespace Sink

variable {m : Type → Type} [Monad m] [LawfulMonad m] {β : Type}

theorem run_blaming_bind {α γ : Type} (key : String) (step : m (Except String α))
    (next : α → ExceptT Failure m γ) : (blaming key step >>= next).run = (do
      match ← step with
      | .error reason => return .error (.exportRejected key reason)
      | .ok value => (next value).run) := by
  rw [ExceptT.run_bind, blaming, ExceptT.run_mk, bind_assoc]
  refine bind_congr fun answer => ?_
  rw [pure_bind]
  cases answer <;> rfl

/-- Both values are created before either is attached, the name first. -/
theorem publish_eq (sink : Sink m β) (exports : Exports) : sink.publish exports = do
    match ← sink.createText exports.name with
    | .error reason => return .error (.exportRejected Exports.nameKey reason)
    | .ok name =>
      match ← sink.createReference exports.handle with
      | .error reason => return .error (.exportRejected Exports.handleKey reason)
      | .ok handle =>
        match ← sink.attach Exports.nameKey name with
        | .error reason => return .error (.exportRejected Exports.nameKey reason)
        | .ok _ =>
          match ← sink.attach Exports.handleKey handle with
          | .error reason => return .error (.exportRejected Exports.handleKey reason)
          | .ok _ => return .ok () := by
  simp only [publish, Exports.items, List.mapM_cons, List.mapM_nil, create, bind_assoc, pure_bind,
    List.forM_eq_forM, List.forM_cons, List.forM_nil, run_blaming_bind, ExceptT.run_pure]
  refine bind_congr fun answer => ?_
  rcases answer with _ | name
  · rfl
  refine bind_congr fun answer => ?_
  rcases answer with _ | handle
  · rfl
  refine bind_congr fun answer => ?_
  rcases answer with _ | _
  · rfl
  refine bind_congr fun answer => ?_
  cases answer <;> rfl

end Sink
end GrammarModule
