import ListScript.Proofs.PrintedText
import ListScript.Proofs.Unreached
import ListScript.Runner

/-!
# What a runner reports

A runner turns the end of a script into a report: a value into a success, an error into a failure with a kind and a
message. The message of a failure starts with its kind, so that the text of the report is the message itself
(`formatError_describe`). It ends with a trace of the active calls, for which the arguments are printed; that is where
a runner fails to report an error: `Runner.run_reports` needs the frames of the trace to be printable, and
`not_run_reports_long_integer` is an error that escapes because an argument has too many digits.
-/

namespace ListScript

open Effect

namespace Store

variable {s : Store}

/-! ## Traces -/

/-- Whether an argument is shown in a trace without a look at what is inside it. -/
def isAbbreviated (s : Store) (v : Value) : Bool :=
  match s.cell? v with
  | some (.closure ..) | some (.list ..) | some (.dict _) => true
  | _ => false

/-- The frame of a call has a text in a trace. -/
structure PrintableFrame (s : Store) (frame : Frame) : Prop where
  args : s.isTrue frame.args = true →
    ∃ items, s.elements frame.args = .ok items ∧ ∀ v ∈ items, s.isAbbreviated v = true ∨ s.Printable v
  name : s.isTrue frame.name = true → s.Printable frame.name

theorem succeeds_printArgument {v : Value} (h : s.isAbbreviated v = true ∨ s.Printable v) :
    Succeeds (s.printArgument v) := by
  unfold printArgument
  split
  · exact succeeds_ok _
  · exact succeeds_ok _
  · exact succeeds_ok _
  · rename_i hclosure hlist hdict
    rcases h with h | h
    · simp only [isAbbreviated] at h
      cases h
    · exact h.print

theorem PrintableFrame.print {frame : Frame} (h : s.PrintableFrame frame) : Succeeds (s.printFrame frame) := by
  unfold printFrame
  refine succeeds_ite_bind h.args (fun _ => ⟨[], rfl, by simp⟩) fun items hitems => ?_
  refine (succeeds_mapM fun v hv => succeeds_printArgument (hitems v hv)).bind fun texts _ => ?_
  refine succeeds_ite_bind (Q := fun _ => True) (fun hname => ?_) (fun _ => ⟨_, rfl, trivial⟩) fun name _ => ?_
  · obtain ⟨name, hprinted⟩ := (h.name hname).plainText
    exact ⟨name, hprinted, trivial⟩
  · exact succeeds_ok _

end Store
/-! ## Runs -/

namespace Runner

/-- What a run does before it comes to the script: the calls of the last run are cleared, and a context is made. -/
def start (r : Runner) (this vars : Value) : Effect Context := do
  change (·.clearStack r.engine)
  newContext (if this = .null then r.host else this) vars r.rootScope

variable {r : Runner} {st : State}

theorem run_eq (fuel : Nat) (r : Runner) (script this vars : Value) :
    r.run fuel script this vars = r.start this vars >>= fun ctx => (do
      match ← attempt (runScript fuel r.engine script ctx) with
      | .ok v => return .success v
      | .error e =>
        let (kind, message) ← ask (·.describe e)
        return .failure kind message) := by
  funext st
  unfold run start
  change Effect.bind _ _ st = Effect.bind (Effect.bind _ _) _ st
  unfold Effect.bind
  split <;> rfl

/-- A runner with a function that fails, and a script that calls it with one more argument. -/
def failing (v : Value) : Runner × State where
  fst := ⟨.null, ⟨1⟩, .ref ⟨4⟩, []⟩
  snd.store := ⟨#[.list [] .plain, .engine (.ref ⟨0⟩) [], .dict [(.text "f", .ref ⟨3⟩)], .function .fail [],
    .scope (.ref ⟨2⟩) .null, .list [.text "call", .text "f", .ref ⟨6⟩] .plain,
    .list [.text "ValueError", .text "x", v] .plain]⟩
  snd.tracing := false
  snd.trace := #[]

end Runner

end ListScript
